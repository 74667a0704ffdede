/-
What prepainting adds.

Every call appends to the lists of the next frame, and changes the dispatch tree only by adding
nodes and registering ids (`Extends`).  A rollback to the index of the window that was extended
gives those lists back (`truncate_spec`). -/
import Zui.Transact.Basic

namespace Zui

open Gpui

namespace Transact

open TextSystem

theorem take_length_eq {α : Type} {xs ys : List α} (h : xs <+: ys) :
    ys.take xs.length = xs :=
  (List.prefix_iff_eq_take.mp h).symm

theorem prefix_of_eq {α : Type} {xs ys : List α} (h : ys = xs) : xs <+: ys := h ▸ List.prefix_rfl

/-! ### Layouts -/

/-- The keys that a frame used, and more. -/
structure UsedMore (before after : FrameCache) : Prop where
  lines : before.lines.used <+: after.lines.used
  wrappedLines : before.wrappedLines.used <+: after.wrappedLines.used
  linesByHash : before.linesByHash.used <+: after.linesByHash.used
  wrappedLinesByHash : before.wrappedLinesByHash.used <+: after.wrappedLinesByHash.used

theorem UsedMore.refl (frame : FrameCache) : UsedMore frame frame :=
  ⟨List.prefix_rfl, List.prefix_rfl, List.prefix_rfl, List.prefix_rfl⟩

theorem UsedMore.trans {a b c : FrameCache} (hab : UsedMore a b) (hbc : UsedMore b c) :
    UsedMore a c :=
  ⟨hab.lines.trans hbc.lines, hab.wrappedLines.trans hbc.wrappedLines,
    hab.linesByHash.trans hbc.linesByHash, hab.wrappedLinesByHash.trans hbc.wrappedLinesByHash⟩

section Layouts

variable {platform : PlatformTextSystem} {cache cache' : LineLayoutCache}

theorem layoutLine_usedMore (text : String) (fontSize : Pixels) (runs : List FontRun)
    (forceWidth : Option Pixels) :
    UsedMore cache.currentFrame
      (cache.layoutLine platform text fontSize runs forceWidth).1.currentFrame := by
  have hpush : ∀ keys : CacheTable CacheKey LineLayout,
      cache.currentFrame.lines.used <+: keys.used →
        UsedMore cache.currentFrame { cache.currentFrame with lines := keys } := by
    intro keys hkeys
    exact ⟨hkeys, List.prefix_rfl, List.prefix_rfl, List.prefix_rfl⟩
  rw [LineLayoutCache.layoutLine.eq_def]
  dsimp only
  split
  · exact UsedMore.refl _
  · split
    · exact hpush _ (List.prefix_append _ _)
    · exact hpush _ (List.prefix_append _ _)

theorem layoutLineByHash_usedMore (textHash textLen : ℕ) (fontSize : Pixels) (runs : List FontRun)
    (forceWidth : Option Pixels) (text : String) :
    UsedMore cache.currentFrame (cache.layoutLineByHash platform textHash textLen fontSize runs
      forceWidth text).1.currentFrame := by
  have hpush : ∀ keys : CacheTable HashedCacheKey LineLayout,
      cache.currentFrame.linesByHash.used <+: keys.used →
        UsedMore cache.currentFrame { cache.currentFrame with linesByHash := keys } := by
    intro keys hkeys
    exact ⟨List.prefix_rfl, List.prefix_rfl, hkeys, List.prefix_rfl⟩
  rw [LineLayoutCache.layoutLineByHash.eq_def]
  dsimp only
  split
  · exact UsedMore.refl _
  · split
    · exact hpush _ (List.prefix_append _ _)
    · exact hpush _ (List.prefix_append _ _)

theorem layoutWrappedLine_usedMore {text : String} {fontSize : Pixels} {runs : List FontRun}
    {wrapWidth : Option Pixels} {maxLines : Option ℕ} {layout : WrappedLineLayout}
    (h : cache.layoutWrappedLine platform text fontSize runs wrapWidth maxLines
      = .ok (cache', layout)) : UsedMore cache.currentFrame cache'.currentFrame := by
  have hpush : ∀ (frame : FrameCache) (keys : CacheTable CacheKey WrappedLineLayout),
      frame.wrappedLines.used <+: keys.used →
        UsedMore frame { frame with wrappedLines := keys } := by
    intro frame keys hkeys
    exact ⟨List.prefix_rfl, hkeys, List.prefix_rfl, List.prefix_rfl⟩
  rw [LineLayoutCache.layoutWrappedLine.eq_def] at h
  dsimp only at h
  split at h
  · rw [← (Prod.mk.inj (Except.ok.inj h)).1]
    exact UsedMore.refl _
  · split at h
    · rw [← (Prod.mk.inj (Except.ok.inj h)).1]
      exact hpush _ _ (List.prefix_append _ _)
    · -- The unwrapped line is laid out first.
      obtain ⟨boundaries, -, hrest⟩ := bind_eq_ok.mp h
      rw [← (Prod.mk.inj (Except.ok.inj hrest)).1]
      exact (layoutLine_usedMore text fontSize runs none).trans
        (hpush _ _ (List.prefix_append _ _))

/-- Cut to the index from before, the used keys are those from before. -/
theorem UsedMore.layoutIndex_truncate (h : UsedMore cache.currentFrame cache'.currentFrame) :
    (cache'.truncateLayouts cache.layoutIndex).currentFrame.lines.used
        = cache.currentFrame.lines.used ∧
      (cache'.truncateLayouts cache.layoutIndex).currentFrame.wrappedLines.used
        = cache.currentFrame.wrappedLines.used ∧
      (cache'.truncateLayouts cache.layoutIndex).currentFrame.linesByHash.used
        = cache.currentFrame.linesByHash.used ∧
      (cache'.truncateLayouts cache.layoutIndex).currentFrame.wrappedLinesByHash.used
        = cache.currentFrame.wrappedLinesByHash.used :=
  ⟨take_length_eq h.lines, take_length_eq h.wrappedLines,
    take_length_eq h.linesByHash, take_length_eq h.wrappedLinesByHash⟩

theorem UsedMore.layoutIndex_eq (h : UsedMore cache.currentFrame cache'.currentFrame) :
    (cache'.truncateLayouts cache.layoutIndex).layoutIndex = cache.layoutIndex := by
  obtain ⟨hlines, hwrapped, hbyHash, hwrappedByHash⟩ := h.layoutIndex_truncate
  rw [LineLayoutCache.layoutIndex, FrameCache.usedIndex, hlines, hwrapped, hbyHash, hwrappedByHash]
  rfl

end Layouts

/-! ### Windows -/

/-- The window with more in the next frame. -/
structure Extends (before after : Window) : Prop where
  focus : after.focus = before.focus
  parents : before.nextFrame.dispatchTree.nodes.map DispatchNode.parent
    <+: after.nextFrame.dispatchTree.nodes.map DispatchNode.parent
  hitboxes : before.nextFrame.hitboxes <+: after.nextFrame.hitboxes
  tooltipRequests : before.nextFrame.tooltipRequests <+: after.nextFrame.tooltipRequests
  deferredDraws : before.nextFrame.deferredDraws <+: after.nextFrame.deferredDraws
  accessedElementStates :
    before.nextFrame.accessedElementStates <+: after.nextFrame.accessedElementStates
  layouts : UsedMore before.textSystem.currentFrame after.textSystem.currentFrame

theorem Extends.refl (self : Window) : Extends self self :=
  ⟨rfl, List.prefix_rfl, List.prefix_rfl, List.prefix_rfl, List.prefix_rfl, List.prefix_rfl,
    UsedMore.refl _⟩

theorem Extends.trans {a b c : Window} (hab : Extends a b) (hbc : Extends b c) : Extends a c :=
  ⟨hbc.focus.trans hab.focus, hab.parents.trans hbc.parents, hab.hitboxes.trans hbc.hitboxes,
    hab.tooltipRequests.trans hbc.tooltipRequests, hab.deferredDraws.trans hbc.deferredDraws,
    hab.accessedElementStates.trans hbc.accessedElementStates, hab.layouts.trans hbc.layouts⟩

/-- Another dispatch tree. -/
theorem Extends.tree {self : Window} {tree : DispatchTree}
    (h : self.nextFrame.dispatchTree.nodes.map DispatchNode.parent
      <+: tree.nodes.map DispatchNode.parent) : Extends self (self.setDispatchTree tree) :=
  ⟨rfl, h, List.prefix_rfl, List.prefix_rfl, List.prefix_rfl, List.prefix_rfl, UsedMore.refl _⟩

theorem Extends.cache {self : Window} {textSystem : LineLayoutCache}
    (h : UsedMore self.textSystem.currentFrame textSystem.currentFrame) :
    Extends self { self with textSystem } :=
  ⟨rfl, List.prefix_rfl, List.prefix_rfl, List.prefix_rfl, List.prefix_rfl, List.prefix_rfl, h⟩

theorem map_set_of_eq {α β : Type} {f : α → β} {xs : List α} {x x' : α} {id : ℕ}
    (hid : xs[id]? = some x) (hf : f x' = f x) : (xs.set id x').map f = xs.map f := by
  obtain ⟨hlt, -⟩ := List.getElem?_eq_some_iff.mp hid
  refine List.ext_getElem? fun ix => ?_
  rw [List.getElem?_map, List.getElem?_map, List.getElem?_set]
  by_cases heq : id = ix
  · subst heq
    rw [if_pos rfl, if_pos hlt, hid, Option.map_some, Option.map_some, hf]
  · rw [if_neg heq]

/-! ### Cutting back -/

/-- The lists of the next frame are those from before. -/
structure ListsRestored (before after : Window) : Prop where
  hitboxes : after.nextFrame.hitboxes = before.nextFrame.hitboxes
  tooltipRequests : after.nextFrame.tooltipRequests = before.nextFrame.tooltipRequests
  deferredDraws : after.nextFrame.deferredDraws = before.nextFrame.deferredDraws
  accessedElementStates :
    after.nextFrame.accessedElementStates = before.nextFrame.accessedElementStates
  layoutIndex : after.textSystem.layoutIndex = before.textSystem.layoutIndex

/-- A window that was extended, cut back: what is left to account for is the dispatch tree and the
focus. -/
theorem truncate_spec {before mid after : Window} (h : Extends before mid)
    (hrun : mid.truncate before.prepaintIndex = .ok after) :
    ListsRestored before after ∧ Extends before after ∧
      after.nextFrame.focus = mid.nextFrame.focus ∧
      after.nextFrame.dispatchTree.nodes.map DispatchNode.parent
        = before.nextFrame.dispatchTree.nodes.map DispatchNode.parent ∧
      mid.nextFrame.dispatchTree.truncate before.nextFrame.dispatchTree.nodes.length
        = .ok after.nextFrame.dispatchTree := by
  obtain ⟨tree, htree, hafter⟩ := bind_eq_ok.mp hrun
  have heq := Except.ok.inj hafter
  have hnodes : tree.nodes = mid.nextFrame.dispatchTree.nodes.take
      before.nextFrame.dispatchTree.nodes.length := by
    rw [DispatchTree.truncate] at htree
    split at htree
    · rw [← Except.ok.inj htree]
      rfl
    · exact absurd htree (by simp)
  have hparents : tree.nodes.map DispatchNode.parent
      = before.nextFrame.dispatchTree.nodes.map DispatchNode.parent := by
    have hcut := take_length_eq h.parents
    rw [List.length_map] at hcut
    rw [hnodes, List.map_take, hcut]
  have hlists : ListsRestored before after := by
    rw [← heq]
    exact ⟨take_length_eq h.hitboxes, take_length_eq h.tooltipRequests,
      take_length_eq h.deferredDraws, take_length_eq h.accessedElementStates,
      h.layouts.layoutIndex_eq⟩
  have hlayouts : UsedMore before.textSystem.currentFrame after.textSystem.currentFrame := by
    obtain ⟨hlines, hwrapped, hbyHash, hwrappedByHash⟩ := h.layouts.layoutIndex_truncate
    rw [← heq]
    exact ⟨prefix_of_eq hlines, prefix_of_eq hwrapped,
      prefix_of_eq hbyHash, prefix_of_eq hwrappedByHash⟩
  have htree' : after.nextFrame.dispatchTree = tree := by rw [← heq]
  refine ⟨hlists, ⟨?_, ?_, prefix_of_eq hlists.hitboxes,
    prefix_of_eq hlists.tooltipRequests, prefix_of_eq hlists.deferredDraws,
    prefix_of_eq hlists.accessedElementStates, hlayouts⟩, by rw [← heq], ?_, ?_⟩
  · rw [← heq]
    exact h.focus
  · rw [htree']
    exact prefix_of_eq hparents
  · rw [htree', hparents]
  · rw [htree']
    exact htree

end Transact

end Zui
