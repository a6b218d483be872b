import Mathlib.Algebra.GroupWithZero.Nat
import GeoLang.Source.Span

namespace GeoLang

namespace Text

/-- The number of bytes of the UTF-8 form. -/
def byteSize (cs : List Char) : Nat := (cs.map Char.utf8Size).sum

@[simp] theorem byteSize_nil : byteSize [] = 0 := rfl

@[simp] theorem byteSize_cons (c : Char) (cs : List Char) :
    byteSize (c :: cs) = c.utf8Size + byteSize cs := List.sum_cons

private theorem utf8ByteSize_ofList (cs : List Char) :
    (String.ofList cs).utf8ByteSize = byteSize cs := by
  induction cs with
  | nil => rfl
  | cons c cs ih =>
    have hcons : String.ofList (c :: cs) = String.singleton c ++ String.ofList cs := by
      rw [← String.toList_inj, String.toList_append]
      simp
    rw [hcons, String.utf8ByteSize_append, String.utf8ByteSize_singleton, ih, byteSize_cons]

/-- The bytes of the characters are the bytes of the text. -/
theorem byteSize_toList (s : String) : byteSize s.toList = s.utf8ByteSize := by
  rw [← utf8ByteSize_ofList, String.ofList_toList]

@[simp] theorem dropBytes?_zero (cs : List Char) : dropBytes? 0 cs = some cs := by
  cases cs <;> rfl

@[simp] theorem takeBytes?_zero (cs : List Char) : takeBytes? 0 cs = some [] := by
  cases cs <;> rfl

theorem exists_utf8Size_add (c : Char) (n : Nat) :
    ∃ k, c.utf8Size + n = k + 1 ∧ c.utf8Size ≤ k + 1 ∧ k + 1 - c.utf8Size = n := by
  have hpositive := c.utf8Size_pos
  exact ⟨c.utf8Size - 1 + n, by omega, by omega, by omega⟩

/-- Dropping a whole character and more drops the rest from behind it. -/
@[simp] theorem dropBytes?_utf8Size_add (c : Char) (n : Nat) (cs : List Char) :
    dropBytes? (c.utf8Size + n) (c :: cs) = dropBytes? n cs := by
  obtain ⟨k, hk, hfits, hrest⟩ := exists_utf8Size_add c n
  rw [hk, dropBytes?, if_pos hfits, hrest]

/-- Taking a whole character and more takes the rest from behind it. -/
@[simp] theorem takeBytes?_utf8Size_add (c : Char) (n : Nat) (cs : List Char) :
    takeBytes? (c.utf8Size + n) (c :: cs) = (takeBytes? n cs).map (c :: ·) := by
  obtain ⟨k, hk, hfits, hrest⟩ := exists_utf8Size_add c n
  rw [hk, takeBytes?, if_pos hfits, hrest]

/-- Dropping as many bytes as `cs` has leaves what stands behind `cs`. -/
theorem dropBytes?_append (cs ds : List Char) : dropBytes? (byteSize cs) (cs ++ ds) = some ds := by
  induction cs with
  | nil => simp
  | cons c cs ih => simp [ih]

private theorem takeBytes?_append (cs ds : List Char) : takeBytes? (byteSize cs)
    (cs ++ ds) = some cs := by
  induction cs with
  | nil => simp
  | cons c cs ih => simp [ih]

/-- The slice between the two ends of a part of the text is that part. -/
theorem slice?_append (before cs behind : List Char) :
    slice? (byteSize before) (byteSize before + byteSize cs) (before ++ (cs ++ behind)) = some cs := by
  have hsize : byteSize before + byteSize cs - byteSize before = byteSize cs := by omega
  rw [slice?, if_pos (Nat.le_add_right _ _), dropBytes?_append, Option.bind_some, hsize,
    takeBytes?_append]

end Text

/-- The offset grows by the bytes of the text that is passed. -/
theorem Position.offset_advanceBy (p : Position) (cs : List Char) :
    (p.advanceBy cs).offset = p.offset + Text.byteSize cs := by
  induction cs generalizing p with
  | nil => rfl
  | cons c cs ih =>
    rw [advanceBy_cons, ih, offset_advance, Text.byteSize_cons, Nat.add_assoc]

theorem Position.offset_start_advanceBy (cs : List Char) :
    (Position.start.advanceBy cs).offset = Text.byteSize cs := by
  rw [offset_advanceBy]
  exact Nat.zero_add _

namespace Span

/-- The span from `before` on over `cs` covers `cs`. -/
theorem covered_advanceBy {source : String} {before cs behind : List Char}
    (hsource : source.toList = before ++ (cs ++ behind)) :
    (Span.mk (Position.start.advanceBy before)
      ((Position.start.advanceBy before).advanceBy cs)).covered source = String.ofList cs := by
  have hstop := Position.offset_advanceBy (Position.start.advanceBy before) cs
  rw [Position.offset_start_advanceBy] at hstop
  rw [covered, hstop, Position.offset_start_advanceBy, hsource, Text.slice?_append]
  rfl

/-- `a` begins in front of `b` and ends there or earlier. -/
def Before (a b : Span) : Prop :=
  a.start.offset < b.start.offset ∧ a.stop.offset ≤ b.start.offset

/-- `a` begins nowhere in front of `b` and ends nowhere behind it. -/
def Inside (a b : Span) : Prop :=
  b.start.offset ≤ a.start.offset ∧ a.stop.offset ≤ b.stop.offset

/-- The spans have no byte in common. -/
def Apart (a b : Span) : Prop := a.Before b ∨ b.Before a

theorem Apart.symm {a b : Span} (hapart : a.Apart b) : b.Apart a := Or.symm hapart

/-- The spans stand one behind the other from `p` to `q`, without gaps and none of them empty. -/
def Tile : Position → List Span → Position → Prop
  | p, [], q => p = q
  | p, s :: rest, q => s.start = p ∧ 0 < s.length ∧ Tile s.stop rest q

/-- What tiles behind `p` begins at `p` or behind it, and is not empty. -/
theorem Tile.bounds {p q : Position} {spans : List Span} (htile : Tile p spans q) :
    ∀ s ∈ spans, p.offset ≤ s.start.offset ∧ 0 < s.length := by
  induction spans generalizing p with
  | nil => simp
  | cons s rest ih =>
    obtain ⟨rfl, hlength, hrest⟩ := htile
    intro t ht
    obtain rfl | ht := List.mem_cons.1 ht
    · exact ⟨Nat.le_refl _, hlength⟩
    · obtain ⟨hstart, htlength⟩ := ih hrest t ht
      unfold length at hlength
      exact ⟨by omega, htlength⟩

/-- Spans that tile a range stand in their order, without overlap. -/
theorem Tile.pairwise_before {p q : Position} {spans : List Span} (htile : Tile p spans q) :
    spans.Pairwise Before := by
  induction spans generalizing p with
  | nil => exact List.Pairwise.nil
  | cons s rest ih =>
    obtain ⟨rfl, hlength, hrest⟩ := htile
    refine List.Pairwise.cons ?_ (ih hrest)
    intro t ht
    have hstart := (hrest.bounds t ht).1
    unfold length at hlength
    exact ⟨by omega, hstart⟩

/-- Tiles stay apart from each other in whatever order they are listed. -/
theorem Tile.pairwise_apart {p q : Position} {spans listed : List Span} (htile : Tile p spans q)
    (hperm : spans.Perm listed) : listed.Pairwise Apart :=
  (htile.pairwise_before.imp Or.inl).perm hperm Apart.symm

end Span

end GeoLang
