import Nexus.Util.Stream

/-!
# Reads are local

A read returns what the bytes between its first and last cursor say, and
nothing else.  `Local` states this for a stream reader, with a rule for each
way readers are built, so that a parser's result on one stream carries over to
any other stream with the same bytes in the range it read.
-/

namespace Nexus.Util

open Nexus.Lib.Bytes
open Nexus.Lib.Checked

/-- `t` has the cursor and the size of `s`, and its bytes from the cursor up to `e`. -/
structure Agree (e : Nat) (s t : Stream) : Prop where
  pos : t.nReadPos = s.nReadPos
  size : t.size = s.size
  data : ∀ i, s.nReadPos ≤ i → i < e → t.vchData[i]? = s.vchData[i]?

namespace Agree

variable {e e' : Nat} {s t : Stream}

theorem advance (h : Agree e s t) (n : Nat) : Agree e (s.advance n) (t.advance n) where
  pos := by simp [h.pos]
  size := h.size
  data i hi hie := h.data i (by simp only [Stream.advance_nReadPos] at hi; omega) hie

theorem mono (h : Agree e s t) (he : e' ≤ e) : Agree e' s t where
  pos := h.pos
  size := h.size
  data i hi hie := h.data i hi (by omega)

theorem slice (h : Agree e s t) {n : Nat} (hn : s.nReadPos + n ≤ e) :
    (t.vchData.drop t.nReadPos).take n = (s.vchData.drop s.nReadPos).take n := by
  apply List.ext_getElem?
  intro i
  rw [List.getElem?_take, List.getElem?_take]
  split
  · rw [List.getElem?_drop, List.getElem?_drop, h.pos, h.data _ (by omega) (by omega)]
  · rfl

end Agree

/-- A reader whose accepting runs depend only on the bytes it moves over. -/
def Local {α : Type} (f : Stream → Result (α × Stream)) : Prop :=
  ∀ ⦃s a s'⦄, f s = .ok (a, s') → ∃ n, s' = s.advance n ∧
    ∀ e t, s.nReadPos + n ≤ e → Agree e s t → f t = .ok (a, t.advance n)

namespace Local

variable {α β : Type}

theorem pure (a : α) : Local fun s => .ok (a, s) := by
  rintro s a' s' h
  obtain ⟨rfl, rfl⟩ := Prod.mk.inj (Except.ok.inj h)
  exact ⟨0, rfl, fun _ _ _ _ => rfl⟩

theorem error (e : Fault) : Local fun _ => (.error e : Result (α × Stream)) := by
  rintro s a s' h
  cases h

theorem pos : Local fun s => .ok (s.nReadPos, s) := by
  rintro s p s' h
  obtain ⟨rfl, rfl⟩ := Prod.mk.inj (Except.ok.inj h)
  refine ⟨0, rfl, fun e t _ hAgree => ?_⟩
  show Except.ok (t.nReadPos, t) = _
  rw [hAgree.pos]
  rfl

theorem bind {f : Stream → Result (α × Stream)} {g : α → Stream → Result (β × Stream)}
    (hf : Local f) (hg : ∀ a, Local (g a)) : Local fun s => f s >>= fun p => g p.1 p.2 := by
  rintro s b s' h
  simp only [bind_eq_ok, Prod.exists] at h
  obtain ⟨a, s₁, hfs, hgs⟩ := h
  obtain ⟨n, rfl, hfn⟩ := hf hfs
  obtain ⟨m, rfl, hgm⟩ := hg a hgs
  refine ⟨n + m, Stream.advance_advance .., fun e t he hAgree => ?_⟩
  have hfirst := hfn e t (by omega) hAgree
  have hsecond := hgm e (t.advance n) (by simp only [Stream.advance_nReadPos]; omega)
    (hAgree.advance n)
  simp only [hfirst, ok_bind, hsecond, Stream.advance_advance]

theorem map {f : Stream → Result (α × Stream)} (hf : Local f) (g : α → β) :
    Local fun s => (f s).map fun p => (g p.1, p.2) := by
  rintro s b s' h
  simp only [map_eq_ok, Prod.exists, Prod.mk.injEq] at h
  obtain ⟨a, s₁, hfs, rfl, rfl⟩ := h
  obtain ⟨n, rfl, hfn⟩ := hf hfs
  exact ⟨n, rfl, fun e t he hAgree => by simp [hfn e t he hAgree]⟩

theorem ite (c : Prop) [Decidable c] {f g : Stream → Result (α × Stream)} (hf : Local f)
    (hg : Local g) : Local fun s => if c then f s else g s := by
  by_cases hc : c
  · simpa only [hc, if_true] using hf
  · simpa only [hc, if_false] using hg

/-- A guard on the values read so far. -/
theorem guard (c : Prop) [Decidable c] {e : Fault} {f : Stream → Result (α × Stream)}
    (hf : Local f) : Local fun s => reject c e >>= fun _ => f s := by
  by_cases hc : c
  · simpa only [reject, hc, if_true, error_bind] using error e
  · simpa only [reject, hc, if_false, ok_bind] using hf

theorem read (n : Nat) : Local fun s => s.read n := by
  rintro s vch s' h
  obtain ⟨hFits, rfl, rfl⟩ := Stream.read_eq_ok.mp h
  refine ⟨n, rfl, fun e t he hAgree => Stream.read_eq_ok.mpr ⟨?_, ?_, rfl⟩⟩
  · unfold Stream.Fits at *
    rw [hAgree.pos, hAgree.size]
    exact hFits
  · exact (hAgree.slice he).symm

theorem extract (α : Type) [FixedWidth α] : Local fun s => s.extract α :=
  bind (read _) fun _ => pure _

theorem readCompactSize : Local Stream.readCompactSize := by
  refine bind (extract UInt8) fun chSize => bind ?_ fun nSizeRet =>
    guard (Stream.MAX_SIZE < nSizeRet) (pure nSizeRet)
  exact ite (chSize < 253) (pure _) (ite (chSize = 253) (map (extract UInt16) _)
    (ite (chSize = 254) (map (extract UInt32) _) (map (extract UInt64) _)))

theorem extractBytes : Local Stream.extractBytes :=
  bind readCompactSize read

end Local

end Nexus.Util
