import Zui.Library.Loop
import Zui.Library.Chunks
import Zui.Library.ListCursor
import Zui.Library.SortedMap
import Zui.SumTree.Basic
import Zui.SumTree.Tree
import Zui.SumTree.Invariant
import Zui.SumTree.Append
import Zui.SumTree.Build
import Zui.SumTree.Ends
import Zui.SumTree.Height
import Zui.SumTree.Cursor
import Zui.SumTree.Keyed
import Zui.SumTree.Path
import Zui.SumTree.Place
import Zui.SumTree.Seek
import Zui.SumTree.Search
import Zui.SumTree.Iterate
import Zui.SumTree.Machine
import Zui.SumTree.Deep
import Zui.SumTree.Slices
import Zui.SumTree.Safety
import Zui.SumTree.Reachable
import Zui.SumTree.Contents
import Zui.SumTree.Find
import Zui.TreeMap.Basic
import Zui.TreeMap.Cut
import Zui.TreeMap.Refinement
import Zui.TreeMap.Runs
import Zui.Gpui.Basic
import Zui.Gpui.Geometry
import Zui.Gpui.BoundsTree
import Zui.Gpui.Shape
import Zui.Keys.Context
import Zui.Keys.Keymap
import Zui.Keys.Pending
import Zui.Keys.Dispatch
import Zui.Subscription.Basic
import Zui.Subscription.Machine
import Zui.Subscription.Places
import Zui.Subscription.Dropped
import Zui.Subscription.Pass
import Zui.Entities.Basic
import Zui.Entities.Counts
import Zui.Entities.Values
import Zui.Effects.Basic
import Zui.Effects.Steps
import Zui.Effects.Scopes
import Zui.Effects.Queue
import Zui.Effects.Shutdown
import Zui.Paint.Scene
import Zui.Paint.Ambient
import Zui.Paint.Calls
import Zui.Paint.Element
import Zui.Paint.Reuse
import Zui.Tracking.Draw
import Zui.Tracking.Notify
import Zui.Atlas.Basic
import Zui.Atlas.Invariant
import Zui.Atlas.Runs
import Zui.Backdrop.Basic
import Zui.Keys.Display
import Zui.Library.Text
import Zui.Keys.Parser
import Zui.Keys.RoundTrip
import Zui.Library.Tour
import Zui.PriorityQueue.Basic
import Zui.PriorityQueue.Delivery
import Zui.PriorityQueue.Wakeup
import Zui.SumTree.Sorted
import Zui.TabStop.Basic
import Zui.TabStop.Cycle
import Zui.TextSystem.Basic
import Zui.TextSystem.Cache
import Zui.TextSystem.Transparent
import Zui.SumTree.BeforeFirst
import Zui.SumTree.Lookups
import Zui.Library.KeyedList
import Zui.SumTree.KeyOrder
import Zui.SumTree.Edits
import Zui.TreeMap.Extend
import Zui.TreeMap.RemoveRange
import Zui.Atlas.Failure
import Zui.Library.Registry
import Zui.Transact.Basic
import Zui.Transact.Extends
import Zui.Transact.Rollback
import Zui.Library.Resolution
import Zui.Library.Separated
import Zui.Path.Basic
import Zui.Path.Components
import Zui.Path.New
import Zui.Path.Normal
import Zui.Library.Lanes
import Zui.Scheduler.Basic
import Zui.Scheduler.Discipline
import Zui.ElementState.Basic
import Zui.ElementState.Persists
import Zui.ListElement.Basic
import Zui.ListElement.Layout
import Zui.ListElement.Valid
import Zui.ListElement.Splice
import Zui.ListElement.Wheel
import Zui.Backdrop.Metal
import Zui.Backdrop.Regions
import Zui.Drawing.Basic
import Zui.Drawing.Phases
import Zui.Drawing.Controls
import Zui.Drawing.Answers
import Zui.Drawing.Clipped
import Zui.Borders.Shader
import Zui.Borders.Sides
import Zui.Borders.Strips
import Zui.Gpui.Insertion
import Zui.DrawOrder.Basic
import Zui.Library.Merge
import Zui.DrawOrder.Batches
import Zui.DrawOrder.Orders
import Zui.DrawOrder.Rounded
import Zui.DrawOrder.Paths
import Zui.DrawOrder.Split
import Zui.ListElement.Scrollbar
import Zui.Library.Binary32
import Zui.ListElement.Cursor
import Zui.ListElement.ScrollBy
import Zui.ListElement.Events
import Zui.ListElement.Remeasure
import Zui.Library.Breaking
import Zui.LineWrapper.Basic
import Zui.LineWrapper.WrapLine
import Zui.LineWrapper.Opportunities
import Zui.Path.Strict
import Zui.TextSystem.Positions
import Zui.Library.Ends
import Zui.Path.Lists
import Zui.Path.Prefix
import Zui.Keys.Entries
import Zui.Keys.Keystroke
import Zui.Scheduler.Clock
import Zui.KeyDispatch.Basic
import Zui.KeyDispatch.Stacks
import Zui.KeyDispatch.Registrations
import Zui.KeyDispatch.Reuse
import Zui.KeyDispatch.Runs
import Zui.Keys.Shortcuts
import Zui.Util.Wrapped
import Zui.Library.Bisection
import Zui.Util.ExtendSorted
import Zui.Library.Antichain
import Zui.Paths.PathList
import Zui.Library.Cycles
import Zui.Paths.NaturalSort
import Zui.Paths.RelPaths
import Zui.Util.Quoting
import Zui.Util.Disambiguate
import Zui.UniformElement.Basic
import Zui.UniformElement.ScrollToItem
import Zui.Paths.WithPosition
import Zui.Library.Rounding
import Zui.Paint.Glyph
import Zui.Color.Hsl
import Zui.Color.Hex
import Zui.SumTree.SizeHint
import Zui.PriorityQueue.TryIter
import Zui.Library.Bump
import Zui.Arena.Basic
import Zui.Arena.Discipline
import Zui.UniformElement.Visible
import Zui.Gpui.Structure
import Zui.Effects.Rest
import Zui.DrawOrder.Partition
import Zui.DrawOrder.Frame
