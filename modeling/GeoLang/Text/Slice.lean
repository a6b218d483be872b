namespace GeoLang.Text

/-- The characters behind the first `n` bytes, if a character ends there. -/
def dropBytes? : Nat → List Char → Option (List Char)
  | 0, cs => some cs
  | _ + 1, [] => none
  | n + 1, c :: cs =>
    if c.utf8Size ≤ n + 1 then dropBytes? (n + 1 - c.utf8Size) cs else none

/-- The characters that make up the first `n` bytes, if a character ends there. -/
def takeBytes? : Nat → List Char → Option (List Char)
  | 0, _ => some []
  | _ + 1, [] => none
  | n + 1, c :: cs =>
    if c.utf8Size ≤ n + 1 then (takeBytes? (n + 1 - c.utf8Size) cs).map (c :: ·) else none

/-- The characters from byte `start` up to byte `stop`, if both are ends of characters in order. -/
def slice? (start stop : Nat) (cs : List Char) : Option (List Char) :=
  if start ≤ stop then (dropBytes? start cs).bind (takeBytes? (stop - start)) else none

/-- Dropping what was taken leaves the rest: the two split the text. -/
theorem takeBytes?_append_dropBytes? {n : Nat} {cs taken rest : List Char}
    (htaken : takeBytes? n cs = some taken) (hrest : dropBytes? n cs = some rest) :
    taken ++ rest = cs := by
  fun_induction takeBytes? n cs generalizing taken rest with
  | case1 => simp_all [dropBytes?]
  | case2 => simp_all
  | case3 n c cs hfits ih =>
    obtain ⟨tail, htail, rfl⟩ := Option.map_eq_some_iff.1 htaken
    simp only [dropBytes?, hfits, if_true] at hrest
    simp [ih htail hrest]
  | case4 => simp_all

end GeoLang.Text
