import Mathlib.Data.List.Nodup
import Mathlib.Logic.Function.Basic

/-!
# Doubly linked lists

Nodes with pointers to the node in front and the node behind, a pointer to the
first node and one to the last.  The last pointer is set when a second node
appears, so it may be null while there is one node.

A segment of nodes is linked between a node in front of it and a node behind it;
segments join, and the two ends of a segment can be linked anew.  The operations
are put together from these rules: `Lists.remove`, `Lists.moveToFront` and
`Lists.dropLast`.
-/

namespace Nexus.Lib.Linked

/-- The pointers of a node. -/
structure Cell (Ptr : Type) where
  pprev : Option Ptr := none
  pnext : Option Ptr := none

structure Links (Ptr : Type) where
  cell : Ptr → Option (Cell Ptr) := fun _ => none
  pfirst : Option Ptr := none
  plast : Option Ptr := none

/-! ## Segments and lists -/

section

variable {Ptr : Type}

/-- Nodes that are linked one behind the other, between `prev` and `next`. -/
def Segment (cell : Ptr → Option (Cell Ptr)) : Option Ptr → List Ptr → Option Ptr → Prop
  | _, [], _ => True
  | prev, p :: ps, next => cell p = some ⟨prev, ps.head?.or next⟩ ∧ Segment cell (some p) ps next

variable {cell cell' : Ptr → Option (Cell Ptr)} {prev next : Option Ptr} {p q : Ptr} {l a b : List Ptr}

theorem Segment.congr (h : Segment cell prev l next) (hSame : ∀ q ∈ l, cell' q = cell q) :
    Segment cell' prev l next := by
  induction l generalizing prev with
  | nil => trivial
  | cons p ps ih =>
      have hHead := hSame p List.mem_cons_self
      exact ⟨hHead.trans h.1, ih h.2 fun q hq => hSame q (List.mem_cons_of_mem p hq)⟩

theorem segment_append : Segment cell prev (a ++ b) next ↔
    Segment cell prev a (b.head?.or next) ∧ Segment cell (a.getLast?.or prev) b next := by
  induction a generalizing prev with
  | nil => simp [Segment]
  | cons p ps ih =>
      have hHead : (ps ++ b).head?.or next = ps.head?.or (b.head?.or next) := by
        cases ps <;> simp
      have hLast : ps.getLast?.or (some p) = (p :: ps).getLast?.or prev := by
        cases ps <;> simp [List.getLast?_cons]
      rw [List.cons_append, Segment, Segment, ih, hHead, hLast, and_assoc]

/-- The list that is linked from the first node to the last.  The last pointer may be null while
there is no second node. -/
structure Links.Lists (links : Links Ptr) (l : List Ptr) : Prop where
  nodup : l.Nodup
  segment : Segment links.cell none l none
  first : links.pfirst = l.head?
  last : links.plast = l.getLast? ∨ (links.plast = none ∧ l.length ≤ 1)

namespace Links.Lists

variable {links : Links Ptr}

theorem empty : ({} : Links Ptr).Lists [] := ⟨List.nodup_nil, trivial, rfl, .inl rfl⟩

/-- The last pointer is right where a second node is. -/
theorem last_eq (h : links.Lists l) (hTwo : 2 ≤ l.length) : links.plast = l.getLast? :=
  h.last.resolve_right fun hOne => by omega

/-- The pointers of a node of a list. -/
theorem cell_eq (h : links.Lists (a ++ p :: b)) : links.cell p = some ⟨a.getLast?, b.head?⟩ := by
  have hRest := (segment_append.mp h.segment).2
  have hCell := hRest.1
  rwa [Option.or_none, Option.or_none] at hCell

/-- A node outside of a list is first or last of nothing. -/
theorem ne_ends (h : links.Lists l) (hp : p ∉ l) :
    some p ≠ links.pfirst ∧ some p ≠ links.plast := by
  constructor
  · rw [h.first]
    intro hEq
    exact hp (List.mem_of_mem_head? hEq.symm)
  · intro hEq
    rcases h.last with hLast | hNone
    · rw [hLast] at hEq
      exact hp (List.mem_of_getLast? hEq.symm)
    · rw [hNone.1] at hEq
      cases hEq

end Links.Lists

end

/-! ## Operations -/

section

variable {Ptr : Type} [DecidableEq Ptr]

/-- A cell is changed through a pointer to it. -/
def setCell (cell : Ptr → Option (Cell Ptr)) (p : Option Ptr) (f : Cell Ptr → Cell Ptr) :
    Ptr → Option (Cell Ptr) :=
  match p with
  | none => cell
  | some q => Function.update cell q ((cell q).map f)

namespace Links

variable (links : Links Ptr)

def modify (p : Option Ptr) (f : Cell Ptr → Cell Ptr) : Links Ptr :=
  { links with cell := setCell links.cell p f }

def pprev (p : Option Ptr) : Option Ptr := p.bind fun q => (links.cell q).bind Cell.pprev

def pnext (p : Option Ptr) : Option Ptr := p.bind fun q => (links.cell q).bind Cell.pnext

/-- The last pointer goes to the node in front. -/
def relinkLast (pthis : Option Ptr) : Links Ptr :=
  if pthis = links.plast then
    { links with plast := links.pprev links.plast }.modify (links.pprev links.plast)
      fun node => { node with pnext := none }
  else links

/-- The first pointer goes to the node behind. -/
def relinkFirst (pthis : Option Ptr) : Links Ptr :=
  if pthis = links.pfirst then
    { links with pfirst := links.pnext links.pfirst }.modify (links.pnext links.pfirst)
      fun node => { node with pprev := none }
  else links

def bridgeNext (pthis : Option Ptr) : Links Ptr :=
  links.modify (links.pnext pthis) fun node => { node with pprev := links.pprev pthis }

def bridgePrev (pthis : Option Ptr) : Links Ptr :=
  links.modify (links.pprev pthis) fun node => { node with pnext := links.pnext pthis }

def unlink (pthis : Option Ptr) : Links Ptr :=
  links.modify pthis fun node => { node with pnext := none, pprev := none }

/-- A node is taken out of the list. -/
def remove (pthis : Option Ptr) : Links Ptr :=
  ((((links.relinkLast pthis).relinkFirst pthis).bridgeNext pthis).bridgePrev pthis).unlink pthis

def linkFront (pthis : Option Ptr) : Links Ptr :=
  links.modify pthis fun node => { node with pprev := none, pnext := links.pfirst }

/-- The node that was first, if there is one, is linked back, and is the last one if there was
none. -/
def linkBack (pthis : Option Ptr) : Links Ptr :=
  let links := links.modify links.pfirst fun node => { node with pprev := pthis }
  if links.pfirst.isSome ∧ links.plast.isNone then
    { links with plast := links.pfirst }.modify links.pfirst fun node => { node with pnext := none }
  else links

/-- A node becomes the first one. -/
def moveToFront (pthis : Option Ptr) : Links Ptr :=
  if pthis = links.pfirst then links
  else { ((links.remove pthis).linkFront pthis).linkBack pthis with pfirst := pthis }

/-- The last node is taken out of the list. -/
def dropLast : Links Ptr :=
  ({ links with plast := links.pprev links.plast }.modify (links.pprev links.plast)
    fun node => { node with pnext := none }).unlink links.plast

end Links

end

/-! ## Changes of segments -/

section

variable {Ptr : Type} [DecidableEq Ptr]
variable {cell cell' : Ptr → Option (Cell Ptr)} {prev next : Option Ptr} {p q : Ptr} {l a b : List Ptr}

theorem setCell_self (f : Cell Ptr → Cell Ptr) : setCell cell (some p) f p = (cell p).map f := by
  simp [setCell]

theorem setCell_of_ne {f : Cell Ptr → Cell Ptr} {pthis : Option Ptr} (h : pthis ≠ some q) :
    setCell cell pthis f q = cell q := by
  cases pthis with
  | none => rfl
  | some p =>
      have hNe : q ≠ p := fun hEq => h (congrArg some hEq.symm)
      simp [setCell, Function.update_of_ne hNe]

/-- A cell outside of a segment is changed. -/
theorem Segment.frame {f : Cell Ptr → Cell Ptr} {pthis : Option Ptr}
    (h : Segment cell prev l next) (hOut : ∀ q ∈ l, pthis ≠ some q) :
    Segment (setCell cell pthis f) prev l next :=
  h.congr fun q hq => setCell_of_ne (hOut q hq)

/-- The first node of a segment is linked to another node in front. -/
theorem Segment.setPrev (h : Segment cell prev l next) (hNodup : l.Nodup) (prev' : Option Ptr) :
    Segment (setCell cell l.head? fun node => { node with pprev := prev' }) prev' l next := by
  cases l with
  | nil => trivial
  | cons p ps =>
      have hOut := (List.nodup_cons.mp hNodup).1
      constructor
      · rw [List.head?_cons, setCell_self, h.1]
        rfl
      · apply h.2.frame
        intro q hq hEq
        rw [List.head?_cons] at hEq
        exact hOut (Option.some.inj hEq ▸ hq)

/-- The last node of a segment is linked to another node behind. -/
theorem Segment.setNext (h : Segment cell prev l next) (hNodup : l.Nodup) (next' : Option Ptr) :
    Segment (setCell cell l.getLast? fun node => { node with pnext := next' }) prev l next' := by
  induction l generalizing prev with
  | nil => trivial
  | cons p ps ih =>
      have hOut := (List.nodup_cons.mp hNodup).1
      have hRest := (List.nodup_cons.mp hNodup).2
      cases ps with
      | nil =>
          constructor
          · rw [List.getLast?_singleton, setCell_self, h.1]
            rfl
          · trivial
      | cons q qs =>
          rw [List.getLast?_cons_cons]
          constructor
          · rw [setCell_of_ne, h.1]
            · rfl
            · intro hEq
              exact hOut (List.mem_of_getLast? hEq)
          · exact ih h.2 hRest

end

/-! ## What the operations do to a list -/

namespace Links.Lists

variable {Ptr : Type} [DecidableEq Ptr] {links : Links Ptr} {p q : Ptr} {l a b : List Ptr}

/-- Taking a node out that is not in the list changes nothing. -/
theorem remove_detached (h : links.Lists l) (hp : p ∉ l) (hCell : links.cell p = some {}) :
    links.remove (some p) = links := by
  obtain ⟨hFirst, hLast⟩ := h.ne_ends hp
  have hNext : links.pnext (some p) = none := by simp [pnext, hCell]
  have hPrev : links.pprev (some p) = none := by simp [pprev, hCell]
  have hUnlink : links.unlink (some p) = links := by
    have hSame : setCell links.cell (some p) (fun node => { node with pnext := none, pprev := none }) =
        links.cell := by
      show Function.update _ _ _ = _
      rw [hCell, Function.update_eq_self_iff, hCell]
      rfl
    rw [unlink, modify, hSame]
  rw [remove, relinkLast, if_neg hLast, relinkFirst, if_neg hFirst, bridgeNext, hNext, modify]
  show (links.bridgePrev (some p)).unlink (some p) = links
  rw [bridgePrev, hPrev]
  exact hUnlink

/-- A node between two segments that may be linked to others at the node. -/
structure Gap (links : Links Ptr) (p : Ptr) (a b : List Ptr) : Prop where
  nodup : (a ++ p :: b).Nodup
  cell : links.cell p = some ⟨a.getLast?, b.head?⟩
  front : ∃ next, Segment links.cell none a next
  back : ∃ prev, Segment links.cell prev b none

omit [DecidableEq Ptr] in
theorem getLast?_ne (hq : q ∉ a) : a.getLast? ≠ some q := fun hEq => hq (List.mem_of_getLast? hEq)

omit [DecidableEq Ptr] in
theorem head?_ne (hq : q ∉ b) : b.head? ≠ some q := fun hEq => hq (List.mem_of_mem_head? hEq)

omit [DecidableEq Ptr] in
theorem gap (h : links.Lists (a ++ p :: b)) : Gap links p a b := by
  have hSplit := segment_append.mp h.segment
  exact ⟨h.nodup, h.cell_eq, ⟨_, hSplit.1⟩, ⟨_, hSplit.2.2⟩⟩

namespace Gap

omit [DecidableEq Ptr] in
theorem disjoint (h : Gap links p a b) : p ∉ a ∧ p ∉ b ∧ a.Nodup ∧ b.Nodup ∧ ∀ q ∈ a, q ∉ b := by
  obtain ⟨hA, hPB, hApart⟩ := List.nodup_append.mp h.nodup
  obtain ⟨hP, hB⟩ := List.nodup_cons.mp hPB
  refine ⟨fun hMem => hApart p hMem p List.mem_cons_self rfl, hP, hA, hB, ?_⟩
  intro q hQA hQB
  exact hApart q hQA q (List.mem_cons_of_mem p hQB) rfl

omit [DecidableEq Ptr] in
theorem pprev_eq (h : Gap links p a b) : links.pprev (some p) = a.getLast? := by
  simp [pprev, h.cell]

omit [DecidableEq Ptr] in
theorem pnext_eq (h : Gap links p a b) : links.pnext (some p) = b.head? := by
  simp [pnext, h.cell]

/-- The node in front is linked anew. -/
theorem setNext (h : Gap links p a b) (next : Option Ptr) :
    Gap (links.modify a.getLast? fun node => { node with pnext := next }) p a b ∧
      Segment (setCell links.cell a.getLast? fun node => { node with pnext := next }) none a next := by
  obtain ⟨hPA, hPB, hA, hB, hApart⟩ := h.disjoint
  obtain ⟨_, hFront⟩ := h.front
  obtain ⟨prev, hBack⟩ := h.back
  have hSet := hFront.setNext hA next
  refine ⟨⟨h.nodup, ?_, ⟨next, hSet⟩, ⟨prev, ?_⟩⟩, hSet⟩
  · show setCell links.cell _ _ p = _
    rw [setCell_of_ne (getLast?_ne hPA), h.cell]
  · apply hBack.frame
    intro q hq hEq
    exact hApart q (List.mem_of_getLast? hEq) hq

/-- The node behind is linked anew. -/
theorem setPrev (h : Gap links p a b) (prev : Option Ptr) :
    Gap (links.modify b.head? fun node => { node with pprev := prev }) p a b ∧
      Segment (setCell links.cell b.head? fun node => { node with pprev := prev }) prev b none := by
  obtain ⟨hPA, hPB, hA, hB, hApart⟩ := h.disjoint
  obtain ⟨next, hFront⟩ := h.front
  obtain ⟨_, hBack⟩ := h.back
  have hSet := hBack.setPrev hB prev
  refine ⟨⟨h.nodup, ?_, ⟨next, ?_⟩, ⟨prev, hSet⟩⟩, hSet⟩
  · show setCell links.cell _ _ p = _
    rw [setCell_of_ne (head?_ne hPB), h.cell]
  · apply hFront.frame
    intro q hq hEq
    exact hApart q hq (List.mem_of_mem_head? hEq)

theorem relinkLast (h : Gap links p a b) : Gap (links.relinkLast (some p)) p a b := by
  rw [Links.relinkLast]
  split
  · rename_i hLast
    rw [← hLast, h.pprev_eq]
    have hSet : Gap { links with plast := a.getLast? } p a b := ⟨h.nodup, h.cell, h.front, h.back⟩
    exact (hSet.setNext none).1
  · exact h

theorem relinkFirst (h : Gap links p a b) : Gap (links.relinkFirst (some p)) p a b := by
  rw [Links.relinkFirst]
  split
  · rename_i hFirst
    rw [← hFirst, h.pnext_eq]
    have hSet : Gap { links with pfirst := b.head? } p a b := ⟨h.nodup, h.cell, h.front, h.back⟩
    exact (hSet.setPrev none).1
  · exact h

/-- The two segments are joined, and the node is left alone. -/
theorem bridge (h : Gap links p a b) :
    Segment (((links.bridgeNext (some p)).bridgePrev (some p)).unlink (some p)).cell none (a ++ b)
      none ∧
    (((links.bridgeNext (some p)).bridgePrev (some p)).unlink (some p)).cell p = some {} := by
  obtain ⟨hPA, hPB, hA, hB, hApart⟩ := h.disjoint
  have hNext := h.setPrev a.getLast?
  rw [bridgeNext, h.pnext_eq, h.pprev_eq]
  have hPrev := hNext.1.setNext b.head?
  rw [bridgePrev, hNext.1.pnext_eq, hNext.1.pprev_eq]
  constructor
  · show Segment (setCell _ (some p) fun node => { node with pnext := none, pprev := none }) none
      (a ++ b) none
    apply Segment.frame
    · rw [segment_append, Option.or_none, Option.or_none]
      refine ⟨hPrev.2, hNext.2.frame ?_⟩
      intro q hq hEq
      exact hApart q (List.mem_of_getLast? hEq) hq
    · intro q hq hEq
      rw [← Option.some.inj hEq, List.mem_append] at hq
      exact hq.elim hPA hPB
  · show setCell _ (some p) _ p = _
    rw [setCell_self, hPrev.1.cell]
    rfl

/-- A node in no segment keeps its pointers. -/
theorem remove_frame (h : Gap links p a b) (hq : q ∉ a ++ p :: b) :
    (links.remove (some p)).cell q = links.cell q := by
  rw [List.mem_append, List.mem_cons, not_or, not_or] at hq
  have hLast := getLast?_ne hq.1
  have hHead := head?_ne hq.2.2
  have hSelf : some p ≠ some q := fun hEq => hq.2.1 (Option.some.inj hEq).symm
  have hStepLast : (links.relinkLast (some p)).cell q = links.cell q := by
    rw [Links.relinkLast]
    split
    · rename_i hEq
      rw [← hEq, h.pprev_eq]
      exact setCell_of_ne hLast
    · rfl
  have hStepFirst : ((links.relinkLast (some p)).relinkFirst (some p)).cell q =
      (links.relinkLast (some p)).cell q := by
    rw [Links.relinkFirst]
    split
    · rename_i hEq
      rw [← hEq, h.relinkLast.pnext_eq]
      exact setCell_of_ne hHead
    · rfl
  have hGap := h.relinkLast.relinkFirst
  have hBridge := hGap.setPrev a.getLast?
  rw [Links.remove, unlink, bridgePrev, bridgeNext, hGap.pnext_eq, hGap.pprev_eq,
    hBridge.1.pnext_eq, hBridge.1.pprev_eq]
  show setCell _ (some p) _ q = _
  rw [setCell_of_ne hSelf]
  show setCell _ a.getLast? _ q = _
  rw [setCell_of_ne hLast]
  show setCell _ b.head? _ q = _
  rw [setCell_of_ne hHead, hStepFirst, hStepLast]

theorem pfirst_remove (h : Gap links p a b) : (links.remove (some p)).pfirst =
    if some p = links.pfirst then b.head? else links.pfirst := by
  have hSame : (links.relinkLast (some p)).pfirst = links.pfirst := by
    rw [Links.relinkLast]
    split <;> rfl
  show ((links.relinkLast (some p)).relinkFirst (some p)).pfirst = _
  rw [Links.relinkFirst, hSame]
  split
  · rename_i hEq
    show (links.relinkLast (some p)).pnext links.pfirst = _
    rw [← hEq, h.relinkLast.pnext_eq]
  · exact hSame

theorem plast_remove (h : Gap links p a b) : (links.remove (some p)).plast =
    if some p = links.plast then a.getLast? else links.plast := by
  have hSame : ((links.relinkLast (some p)).relinkFirst (some p)).plast =
      (links.relinkLast (some p)).plast := by
    rw [Links.relinkFirst]
    split <;> rfl
  show ((links.relinkLast (some p)).relinkFirst (some p)).plast = _
  rw [hSame, Links.relinkLast]
  split
  · rename_i hEq
    show links.pprev links.plast = _
    rw [← hEq, h.pprev_eq]
  · rfl

end Gap

/-- A node is taken out of the list. -/
theorem remove (h : links.Lists (a ++ p :: b)) : (links.remove (some p)).Lists (a ++ b) := by
  have hGap := h.gap
  obtain ⟨hPA, hPB, hA, hB, hApart⟩ := hGap.disjoint
  constructor
  · rw [List.nodup_append]
    exact ⟨hA, hB, fun q hqA r hqB hEq => hApart q hqA (hEq ▸ hqB)⟩
  · exact hGap.relinkLast.relinkFirst.bridge.1
  · rw [hGap.pfirst_remove, h.first]
    cases a with
    | nil => simp
    | cons q qs =>
        have hNe : some p ≠ some q := fun hEq => hPA (by simp [Option.some.inj hEq])
        simp [hNe]
  · rw [hGap.plast_remove]
    rcases h.last with hLast | ⟨hNone, hOne⟩
    · left
      rw [hLast, List.getLast?_append_cons]
      cases b with
      | nil => simp
      | cons q qs =>
          have hNe : some p ≠ (p :: q :: qs).getLast? := by
            rw [List.getLast?_cons_cons]
            exact (getLast?_ne hPB).symm
          rw [if_neg hNe, List.getLast?_cons_cons, List.getLast?_append_cons]
    · right
      rw [List.length_append, List.length_cons] at hOne
      rw [hNone, List.length_append]
      exact ⟨rfl, by omega⟩

theorem remove_self (h : links.Lists (a ++ p :: b)) :
    (links.remove (some p)).cell p = some {} :=
  h.gap.relinkLast.relinkFirst.bridge.2

theorem remove_frame (h : links.Lists (a ++ p :: b)) (hq : q ∉ a ++ p :: b) :
    (links.remove (some p)).cell q = links.cell q :=
  h.gap.remove_frame hq

/-- A node of the list, or one that is linked to nothing, is taken out. -/
theorem remove_erase (h : links.Lists l) (hp : p ∉ l → links.cell p = some {}) :
    (links.remove (some p)).Lists (l.erase p) := by
  by_cases hMem : p ∈ l
  · obtain ⟨a, b, rfl⟩ := List.append_of_mem hMem
    rw [List.erase_append_right _ h.gap.disjoint.1, List.erase_cons_head]
    exact h.remove
  · rwa [h.remove_detached hMem (hp hMem), List.erase_of_not_mem hMem]

theorem remove_erase_self (h : links.Lists l) (hp : p ∉ l → links.cell p = some {}) :
    (links.remove (some p)).cell p = some {} := by
  by_cases hMem : p ∈ l
  · obtain ⟨a, b, rfl⟩ := List.append_of_mem hMem
    exact h.remove_self
  · rw [h.remove_detached hMem (hp hMem), hp hMem]

theorem remove_erase_frame (h : links.Lists l) (hp : p ∉ l → links.cell p = some {}) (hq : q ∉ l) :
    (links.remove (some p)).cell q = links.cell q := by
  by_cases hMem : p ∈ l
  · obtain ⟨a, b, rfl⟩ := List.append_of_mem hMem
    exact h.remove_frame hq
  · rw [h.remove_detached hMem (hp hMem)]

/-- A node that is not in the list is put in front of it. -/
theorem link (h : links.Lists l) (hp : p ∉ l) (hCell : (links.cell p).isSome) :
    Lists { (links.linkFront (some p)).linkBack (some p) with pfirst := some p } (p :: l) := by
  have hNodup : (p :: l).Nodup := List.nodup_cons.mpr ⟨hp, h.nodup⟩
  have hSelf : (links.linkFront (some p)).cell p = some ⟨none, l.head?⟩ := by
    obtain ⟨node, hNode⟩ := Option.isSome_iff_exists.mp hCell
    simp only [linkFront, modify, setCell_self, hNode, h.first]
    rfl
  have hRest : Segment (links.linkFront (some p)).cell none l none := by
    simp only [linkFront, modify]
    apply h.segment.frame
    intro q hq hEq
    exact hp (Option.some.inj hEq ▸ hq)
  have hPrev := hRest.setPrev h.nodup (some p)
  have hFirst : (links.linkFront (some p)).pfirst = l.head? := h.first
  have hLast : (links.linkFront (some p)).plast = links.plast := rfl
  rw [linkBack]
  simp only [modify, hFirst, hLast]
  cases l with
  | nil =>
      refine ⟨hNodup, ⟨hSelf, trivial⟩, rfl, ?_⟩
      right
      rw [if_neg (by simp)]
      constructor
      · exact h.last.elim id fun hNone => hNone.1
      · simp
  | cons q qs =>
      have hNe : some q ≠ some p := fun hEq => hp (by simp [Option.some.inj hEq])
      rw [List.head?_cons] at hSelf hPrev ⊢
      split
      · rename_i hNull
        have hQs : qs = [] := by
          rcases h.last with hSome | hOne
          · rw [hSome, List.getLast?_cons] at hNull
            simp at hNull
          · exact List.length_eq_zero_iff.mp (by simpa using hOne.2)
        subst hQs
        refine ⟨hNodup, ⟨?_, ?_⟩, rfl, .inl rfl⟩
        · show setCell (setCell _ (some q) _) (some q) _ p = _
          rw [setCell_of_ne hNe, setCell_of_ne hNe, hSelf]
          rfl
        · exact hPrev.setNext h.nodup none
      · rename_i hSome
        refine ⟨hNodup, ⟨?_, hPrev⟩, rfl, .inl ?_⟩
        · show setCell _ (some q) _ p = _
          rw [setCell_of_ne hNe, hSelf]
          rfl
        · rw [List.getLast?_cons_cons]
          apply h.last.resolve_right
          intro hNone
          exact hSome ⟨rfl, Option.isNone_iff_eq_none.mpr hNone.1⟩

theorem link_frame (h : links.Lists l) (hq : q ∉ p :: l) :
    ((links.linkFront (some p)).linkBack (some p)).cell q = links.cell q := by
  rw [List.mem_cons, not_or] at hq
  have hNe : some p ≠ some q := fun hEq => hq.1 (Option.some.inj hEq).symm
  have hHead := head?_ne hq.2
  have hFirst : (links.linkFront (some p)).pfirst = l.head? := h.first
  have hFront : (links.linkFront (some p)).cell q = links.cell q := setCell_of_ne hNe
  rw [linkBack]
  simp only [modify, hFirst]
  split
  · show setCell (setCell _ l.head? _) l.head? _ q = _
    rw [setCell_of_ne hHead, setCell_of_ne hHead, hFront]
  · show setCell _ l.head? _ q = _
    rw [setCell_of_ne hHead, hFront]

/-- A node of the list, or one that is linked to nothing, becomes the first. -/
theorem moveToFront (h : links.Lists l) (hp : p ∉ l → links.cell p = some {}) :
    (links.moveToFront (some p)).Lists (p :: l.erase p) := by
  rw [Links.moveToFront]
  split
  · rename_i hFirst
    rw [h.first] at hFirst
    obtain ⟨t, rfl⟩ := List.head?_eq_some_iff.mp hFirst.symm
    rwa [List.erase_cons_head]
  · apply (h.remove_erase hp).link
    · exact fun hIn => (h.nodup.mem_erase_iff.mp hIn).1 rfl
    · rw [h.remove_erase_self hp]
      rfl

theorem moveToFront_frame (h : links.Lists l) (hp : p ∉ l → links.cell p = some {})
    (hq : q ∉ p :: l) : (links.moveToFront (some p)).cell q = links.cell q := by
  rw [Links.moveToFront]
  split
  · rfl
  · have hOut : q ∉ l := fun hIn => hq (List.mem_cons_of_mem p hIn)
    have hApart : q ∉ p :: l.erase p := by
      intro hIn
      rcases List.mem_cons.mp hIn with hSame | hRest
      · exact hq (List.mem_cons.mpr (.inl hSame))
      · exact hOut (List.mem_of_mem_erase hRest)
    exact ((h.remove_erase hp).link_frame hApart).trans (h.remove_erase_frame hp hOut)

/-- The cell of a node outside of the list is taken or freed. -/
theorem update (h : links.Lists l) (hp : p ∉ l) (node : Option (Cell Ptr)) :
    Lists { links with cell := Function.update links.cell p node } l where
  nodup := h.nodup
  segment := by
    apply h.segment.congr
    intro q hq
    have hNe : q ≠ p := fun hEq => hp (hEq ▸ hq)
    exact Function.update_of_ne hNe _ _
  first := h.first
  last := h.last

omit [DecidableEq Ptr] in
/-- The last node of a list of two or more. -/
theorem plast_eq (h : links.Lists (a ++ [p])) (ha : a ≠ []) : links.plast = some p := by
  rw [h.last_eq]
  · simp
  · have := List.length_pos_iff.mpr ha
    simp
    omega

/-- The last node is taken out of a list of two or more. -/
theorem dropLast (h : links.Lists (a ++ [p])) (ha : a ≠ []) : links.dropLast.Lists a := by
  have hGap := h.gap
  obtain ⟨hPA, -, hA, -, -⟩ := hGap.disjoint
  have hSet := hGap.setNext none
  have hPrev : links.pprev links.plast = a.getLast? := by rw [h.plast_eq ha, hGap.pprev_eq]
  rw [Links.dropLast, hPrev, h.plast_eq ha]
  refine ⟨hA, ?_, ?_, .inl rfl⟩
  · show Segment (setCell _ (some p) fun node => { node with pnext := none, pprev := none }) none a
      none
    apply hSet.2.frame
    intro q hq hEq
    exact hPA (Option.some.inj hEq ▸ hq)
  · show links.pfirst = _
    rw [h.first, List.head?_append_of_ne_nil _ ha]

theorem dropLast_self (h : links.Lists (a ++ [p])) (ha : a ≠ []) :
    links.dropLast.cell p = some {} := by
  have hGap := h.gap
  have hPrev : links.pprev links.plast = a.getLast? := by rw [h.plast_eq ha, hGap.pprev_eq]
  have hSet := (hGap.setNext none).1.cell
  rw [Links.dropLast, hPrev, h.plast_eq ha]
  show setCell (setCell _ a.getLast? _) (some p) _ p = _
  rw [setCell_self]
  show Option.map _ (setCell links.cell a.getLast? (fun node => { node with pnext := none }) p) = _
  rw [show setCell links.cell a.getLast? (fun node => { node with pnext := none }) p = _ from hSet]
  rfl

theorem dropLast_frame (h : links.Lists (a ++ [p])) (ha : a ≠ []) (hq : q ∉ a ++ [p]) :
    links.dropLast.cell q = links.cell q := by
  have hPrev : links.pprev links.plast = a.getLast? := by rw [h.plast_eq ha, h.gap.pprev_eq]
  rw [List.mem_append, List.mem_singleton, not_or] at hq
  rw [Links.dropLast, hPrev, h.plast_eq ha]
  show setCell (setCell _ a.getLast? _) (some p) _ q = _
  rw [setCell_of_ne fun hEq => hq.2 (Option.some.inj hEq).symm]
  exact setCell_of_ne (getLast?_ne hq.1)

end Links.Lists

end Nexus.Lib.Linked
