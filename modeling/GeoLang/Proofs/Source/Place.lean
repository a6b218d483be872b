import GeoLang.Proofs.Source.Span

namespace GeoLang

/-- The text in front of `p` is `front`: the offset is its size in bytes, the line the number of
    line feeds in it, and the column the number of characters behind the last of them. -/
structure Position.Behind (p : Position) (front : String) : Prop where
  offset : p.offset = front.utf8ByteSize
  line : p.line = front.toList.count '\n'
  column : p.column = (front.toList.reverse.takeWhile (· ≠ '\n')).length

/-- `p` is a place in `source`, at its beginning, at its end or between two of its characters. -/
def Position.ExactIn (p : Position) (source : String) : Prop :=
  ∃ front behind, source = front ++ behind ∧ p.Behind front

/-- Both ends of the span are places in `source`, and the text that it covers stands between them;
    it is not the empty text that stands in for a faulty range. -/
structure Span.ExactIn (s : Span) (source : String) : Prop where
  start : s.start.ExactIn source
  stop : s.stop.ExactIn source
  covered : ∃ front behind, source = front ++ (s.covered source ++ behind) ∧ s.start.Behind front ∧
    Text.slice? s.start.offset s.stop.offset source.toList = some (s.covered source).toList

namespace Position

/-- One character more, and the position stands behind it. -/
theorem Behind.advance {p : Position} {front : String} (hbehind : p.Behind front) (c : Char) :
    (p.advance c).Behind (front.push c) where
  offset := by
    rw [offset_advance, hbehind.offset, String.utf8ByteSize_push]
  line := by
    have hline := hbehind.line
    by_cases hfeed : c = '\n'
    · simp [Position.advance, hfeed, hline]
    · simp [Position.advance, hfeed, hline]
  column := by
    have hcolumn := hbehind.column
    by_cases hfeed : c = '\n'
    · simp [Position.advance, hfeed]
    · simp [Position.advance, hfeed, hcolumn]

/-- Advancing over characters keeps a position exact behind more of the text. -/
theorem Behind.advanceBy {p : Position} {front : String} (hbehind : p.Behind front)
    (cs : List Char) : (p.advanceBy cs).Behind (front ++ String.ofList cs) := by
  induction cs generalizing p front with
  | nil => simpa using hbehind
  | cons c cs ih =>
    have hrest := ih (hbehind.advance c)
    have hjoin : front.push c ++ String.ofList cs = front ++ String.ofList (c :: cs) := by
      rw [← String.toList_inj]
      simp
    rwa [hjoin] at hrest

private theorem behind_start : Position.start.Behind "" := ⟨rfl, rfl, rfl⟩

theorem behind_start_advanceBy (cs : List Char) :
    (Position.start.advanceBy cs).Behind (String.ofList cs) := by
  have hbehind := behind_start.advanceBy cs
  rwa [String.empty_append] at hbehind

/-- However far the text was read, the position that was reached is a place in it. -/
theorem exactIn_advanceBy {source : String} {cs ds : List Char} (hsource : source.toList = cs ++ ds) :
    (Position.start.advanceBy cs).ExactIn source := by
  refine ⟨String.ofList cs, String.ofList ds, ?_, behind_start_advanceBy cs⟩
  rw [← String.toList_inj, hsource]
  simp

end Position

namespace Text

theorem byteSize_append (cs ds : List Char) : byteSize (cs ++ ds) = byteSize cs + byteSize ds := by
  simp [byteSize]

/-- Of two beginnings of a text the one with fewer bytes is a beginning of the other. -/
theorem exists_append_of_byteSize_le {cs ds front behind : List Char}
    (hsplit : cs ++ ds = front ++ behind) (hle : byteSize cs ≤ byteSize front) :
    ∃ part, front = cs ++ part := by
  obtain ⟨part, hfront, -⟩ | ⟨part, hcs, -⟩ := List.append_eq_append_iff.1 hsplit
  · exact ⟨part, hfront⟩
  · cases part with
    | nil => exact ⟨[], by simpa using hcs.symm⟩
    | cons c part =>
      have hpositive := c.utf8Size_pos
      rw [hcs, byteSize_append, byteSize_cons] at hle
      omega

end Text

namespace Span

variable {source : String}

/-- What lies between two places of a text is a part of it if the places are in order. -/
theorem exactIn_of_le {s : Span} (hstart : s.start.ExactIn source) (hstop : s.stop.ExactIn source)
    (hle : s.start.offset ≤ s.stop.offset) : s.ExactIn source := by
  refine ⟨hstart, hstop, ?_⟩
  obtain ⟨front, rest, hfront, hbehindFront⟩ := hstart
  obtain ⟨text, behind, htext, hbehindText⟩ := hstop
  have hstartOffset : s.start.offset = Text.byteSize front.toList := by
    rw [Text.byteSize_toList, hbehindFront.offset]
  have hstopOffset : s.stop.offset = Text.byteSize text.toList := by
    rw [Text.byteSize_toList, hbehindText.offset]
  have hsplit : front.toList ++ rest.toList = text.toList ++ behind.toList := by
    rw [← String.toList_append, ← String.toList_append, ← hfront, htext]
  obtain ⟨part, hpart⟩ := Text.exists_append_of_byteSize_le hsplit (by omega)
  have hsource : source.toList = front.toList ++ (part ++ behind.toList) := by
    rw [htext, String.toList_append, hpart, List.append_assoc]
  have hslice : Text.slice? s.start.offset s.stop.offset source.toList = some part := by
    rw [hstopOffset, hpart, Text.byteSize_append, hstartOffset, hsource]
    exact Text.slice?_append front.toList part behind.toList
  have hcovered : (s.covered source).toList = part := by
    simp [covered, hslice]
  refine ⟨front, behind, ?_, hbehindFront, by rw [hslice, hcovered]⟩
  rw [← String.toList_inj, String.toList_append, String.toList_append, hcovered, hsource]

/-- The ends of an exact span are in order. -/
theorem ExactIn.le {s : Span} (hexact : s.ExactIn source) : s.start.offset ≤ s.stop.offset := by
  obtain ⟨front, behind, -, -, hslice⟩ := hexact.covered
  unfold Text.slice? at hslice
  split at hslice
  · assumption
  · cases hslice

theorem exactIn_empty {p : Position} (hexact : p.ExactIn source) : (Span.empty p).ExactIn source :=
  exactIn_of_le hexact hexact (Nat.le_refl _)

/-- The least span around two parts of the text has its ends where they have theirs. -/
theorem ExactIn.merge {a b : Span} (ha : a.ExactIn source) (hb : b.ExactIn source) :
    (a.merge b).ExactIn source := by
  have hale := ha.le
  refine exactIn_of_le ?_ ?_ ?_
  · unfold Span.merge
    dsimp only
    split
    · exact hb.start
    · exact ha.start
  · unfold Span.merge
    dsimp only
    split
    · exact hb.stop
    · exact ha.stop
  · rw [start_offset_merge, stop_offset_merge]
    omega

end Span

end GeoLang
