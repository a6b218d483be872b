namespace GeoLang

/-- Words that are found by their spelling: all of them are listed, no two with one spelling. -/
structure Vocabulary (α : Type) where
  spelling : α → String
  all : List α
  mem_all : ∀ a, a ∈ all
  distinct : all.Pairwise fun a b => spelling a ≠ spelling b

namespace Vocabulary

variable {α : Type} (v : Vocabulary α)

/-- The word spelled exactly `s`; case matters. -/
def ofSpelling? (s : String) : Option α := v.all.find? (v.spelling · == s)

/-- What is found by a text is spelled by it. -/
theorem spelling_of_ofSpelling? {s : String} {a : α} (hfound : v.ofSpelling? s = some a) :
    v.spelling a = s := by
  simpa using List.find?_some hfound

private theorem find?_spelling {spelling : α → String} {as : List α} {a : α}
    (hdistinct : as.Pairwise fun a b => spelling a ≠ spelling b) (ha : a ∈ as) :
    as.find? (spelling · == spelling a) = some a := by
  induction hdistinct with
  | nil => cases ha
  | cons hb _ ih =>
    obtain rfl | ha := List.mem_cons.1 ha
    · simp
    · rw [List.find?_cons_of_neg (by simpa using hb a ha)]
      exact ih ha

/-- Each word is found by its spelling. -/
theorem ofSpelling?_spelling (a : α) : v.ofSpelling? (v.spelling a) = some a :=
  find?_spelling v.distinct (v.mem_all a)

/-- Words with one spelling are the same. -/
theorem eq_of_spelling_eq {a b : α} (hspelling : v.spelling a = v.spelling b) : a = b := by
  have hfound := v.ofSpelling?_spelling a
  rw [hspelling, v.ofSpelling?_spelling b] at hfound
  exact (Option.some.inj hfound).symm

end Vocabulary

end GeoLang
