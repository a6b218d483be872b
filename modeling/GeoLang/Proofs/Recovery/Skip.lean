import GeoLang.Proofs.Braces.Count
import GeoLang.Proofs.Reading.Cursor

namespace GeoLang.Grammar

/-- May stand in a header that is skipped: no brace, and nothing that a statement begins with or
    ends with. -/
structure InHeader (t : Token) : Prop where
  brace : t.kind.isBrace = false
  semicolon : t.kind ≠ .punctuation .semicolon
  starts : t.kind.startsStatement = false

instance (t : Token) : Decidable (InHeader t) :=
  decidable_of_iff (t.kind.isBrace = false ∧ t.kind ≠ .punctuation .semicolon ∧
    t.kind.startsStatement = false)
    ⟨fun h => ⟨h.1, h.2.1, h.2.2⟩, fun h => ⟨h.brace, h.semicolon, h.starts⟩⟩

variable {left right eof : Token} {previous : Option Token} {body header ts us : List Token}
  {j : Nat}

/-- No statement ends in front of the place. -/
def Midway (previous : Option Token) : Prop := ∀ t ∈ previous, t.kind ≠ .punctuation .semicolon

/-- Boundaries stand behind a semicolon, at a closing brace and in front of words that begin a
    statement. -/
theorem isBoundary_iff {t : Token} :
    isBoundary previous t = true ↔ (∃ u ∈ previous, u.kind = .punctuation .semicolon) ∨
      t.kind = .punctuation .rCurly ∨ t.kind.startsStatement = true := by
  cases previous <;> simp [isBoundary, TokenKind.isPunctuation, or_assoc]

/-- Anywhere else tokens are skipped. -/
theorem isBoundary_eq_false_iff {t : Token} :
    isBoundary previous t = false ↔
      Midway previous ∧ t.kind ≠ .punctuation .rCurly ∧ t.kind.startsStatement = false := by
  cases previous <;> simp [isBoundary, Midway, TokenKind.isPunctuation, and_assoc]

/-- At a boundary nothing is skipped. -/
theorem skipToBoundary_of_boundary {t : Token} (hboundary : isBoundary previous t = true) :
    skipToBoundary 0 previous eof (t :: ts) = ⟨previous, t :: ts, eof⟩ := by
  rw [skipToBoundary, if_pos ⟨rfl, hboundary⟩]

/-- The tokens of a header are skipped, whatever follows them. -/
theorem exists_skipToBoundary_header (hprevious : Midway previous)
    (hheader : ∀ t ∈ header, InHeader t) :
    ∃ previous', Midway previous' ∧
      skipToBoundary 0 previous eof (header ++ us) = skipToBoundary 0 previous' eof us := by
  induction header generalizing previous with
  | nil => exact ⟨previous, hprevious, rfl⟩
  | cons t ts ih =>
    obtain ⟨ht, hts⟩ := List.forall_mem_cons.1 hheader
    have hclose : t.kind ≠ .punctuation .rCurly := by
      intro hkind
      have hbrace := ht.brace
      rw [hkind] at hbrace
      cases hbrace
    have hboundary := isBoundary_eq_false_iff.2 ⟨hprevious, hclose, ht.starts⟩
    have hmidway : Midway (some t) := by
      rintro u ⟨⟩
      exact ht.semicolon
    obtain ⟨previous', hprevious', hskip⟩ := ih hmidway hts
    refine ⟨previous', hprevious', ?_⟩
    rw [List.cons_append, skipToBoundary, if_neg (by simp [hboundary]),
      braceDepth_of_not_isBrace ht.brace]
    exact hskip

/-- Inside of a brace only the count of braces matters, and the part of the body that is skipped
    closes none but its own. -/
theorem exists_skipToBoundary_body {skipped : List Token} (hskipped : LeavesOpen skipped j)
    (hwhole : Balanced (skipped ++ ts)) (previous : Option Token) :
    ∃ previous', skipToBoundary (j + 1) previous eof (ts ++ us) =
      skipToBoundary 1 previous' eof us := by
  induction ts generalizing skipped j previous with
  | nil =>
    have htotal := hskipped.total
    have hbalanced := hwhole.total
    rw [List.append_nil] at hbalanced
    obtain rfl : j = 0 := by omega
    exact ⟨previous, rfl⟩
  | cons t ts ih =>
    have hclose : j = 0 → t.kind ≠ .punctuation .rCurly := by
      rintro rfl
      exact hskipped.not_rCurly hwhole
    have hdepth : braceDepth (j + 1) t = braceDepth j t + 1 := by
      obtain hleft | hright | hbrace := t.kind.brace_cases
      · rw [braceDepth_of_lCurly hleft, braceDepth_of_lCurly hleft]
      · have hpositive : j ≠ 0 := fun hzero => hclose hzero hright
        rw [braceDepth_of_rCurly hright, braceDepth_of_rCurly hright]
        omega
      · rw [braceDepth_of_not_isBrace hbrace, braceDepth_of_not_isBrace hbrace]
    have hmore : LeavesOpen (skipped ++ [t]) (braceDepth j t) :=
      hskipped.snoc fun hzero => by simpa [TokenKind.isPunctuation] using hclose hzero
    have hwhole' : Balanced ((skipped ++ [t]) ++ ts) := by
      rwa [List.append_assoc]
    obtain ⟨previous', hskip⟩ := ih hmore hwhole' (some t)
    refine ⟨previous', ?_⟩
    rw [List.cons_append, skipToBoundary, if_neg (by simp), hdepth]
    exact hskip

/-- A block is skipped as a whole, unless a statement ends in front of it. -/
theorem skipToBoundary_block (hprevious : Midway previous)
    (hleft : left.kind = .punctuation .lCurly) (hbody : Balanced body)
    (hright : right.kind = .punctuation .rCurly) :
    skipToBoundary 0 previous eof (left :: (body ++ right :: us)) =
      skipToBoundary 0 (some right) eof us := by
  have hboundary : isBoundary previous left = false := by
    rw [isBoundary_eq_false_iff, hleft]
    exact ⟨hprevious, by simp, rfl⟩
  obtain ⟨previous', hskip⟩ :=
    @exists_skipToBoundary_body eof body (right :: us) 0 [] .nil hbody (some left)
  rw [skipToBoundary, if_neg (by simp [hboundary]), braceDepth_of_lCurly hleft, hskip,
    skipToBoundary, if_neg (by simp), braceDepth_of_rCurly hright]

/-- The tokens that are skipped from a place where no statement ends, up to `back`. Outside of the
    blocks among them nothing begins a statement, every brace in a block is closed there, and they
    end with a semicolon, or where a block ends or a statement begins behind them. -/
inductive SkippedTo (back : List Token) : List Token → Prop
  | boundary (hback : ∀ t ∈ back.head?, t.kind = .punctuation .rCurly ∨ t.kind.startsStatement = true) :
      SkippedTo back []
  | semicolon {t : Token} (hkind : t.kind = .punctuation .semicolon) : SkippedTo back [t]
  | token {t : Token} {ts : List Token} (ht : InHeader t) (hrest : SkippedTo back ts) :
      SkippedTo back (t :: ts)
  | block {left right : Token} {body ts : List Token} (hleft : left.kind = .punctuation .lCurly)
      (hbody : Balanced body) (hright : right.kind = .punctuation .rCurly)
      (hrest : SkippedTo back ts) : SkippedTo back (left :: (body ++ right :: ts))

/-- At a boundary, and at the end of the text, skipping stops. -/
theorem skipToBoundary_of_head? (hboundary : ∀ t ∈ ts.head?, isBoundary previous t = true) :
    skipToBoundary 0 previous eof ts = ⟨previous, ts, eof⟩ := by
  cases ts with
  | nil => rfl
  | cons t ts => exact skipToBoundary_of_boundary (hboundary t rfl)

/-- What the relation describes is what recovery does between statements. -/
theorem SkippedTo.exists_skipToBoundary {back skipped : List Token} (h : SkippedTo back skipped)
    (hprevious : Midway previous) :
    ∃ previous', skipToBoundary 0 previous eof (skipped ++ back) = ⟨previous', back, eof⟩ := by
  induction h generalizing previous with
  | boundary hback =>
    exact ⟨previous, skipToBoundary_of_head? fun t ht => isBoundary_iff.2 (.inr (hback t ht))⟩
  | @semicolon t hkind =>
    have hboundary : isBoundary previous t = false := by
      rw [isBoundary_eq_false_iff, hkind]
      exact ⟨hprevious, by simp, rfl⟩
    have hbrace : t.kind.isBrace = false := by
      rw [hkind]
      rfl
    refine ⟨some t, ?_⟩
    rw [List.singleton_append, skipToBoundary, if_neg (by simp [hboundary]),
      braceDepth_of_not_isBrace hbrace]
    exact skipToBoundary_of_head? fun u _ => isBoundary_iff.2 (.inl ⟨t, rfl, hkind⟩)
  | @token t ts ht _ ih =>
    obtain ⟨previous', hprevious', hskip⟩ :=
      exists_skipToBoundary_header hprevious (List.forall_mem_singleton.2 ht)
    obtain ⟨last, hrest⟩ := ih hprevious'
    exact ⟨last, hskip.trans hrest⟩
  | @block left right body ts hleft hbody hright _ ih =>
    have hmidway : Midway (some right) := by
      rintro t ⟨⟩
      simp [hright]
    obtain ⟨last, hrest⟩ := ih hmidway
    refine ⟨last, ?_⟩
    rw [List.cons_append, List.append_assoc, List.cons_append,
      skipToBoundary_block hprevious hleft hbody hright, hrest]

/-- Where skipping closes a block it has opened it. -/
theorem SkippedTo.balanced {back skipped : List Token} (h : SkippedTo back skipped) :
    Balanced skipped := by
  have hclosed : ∀ t : Token, t.kind.isBrace = false → Balanced [t] := fun t ht =>
    LeavesOpen.nil.snoc_other ht
  induction h with
  | boundary => exact .nil
  | @semicolon t hkind => exact hclosed t (by rw [hkind]; rfl)
  | @token t _ ht _ ih => exact (hclosed t ht.brace).append ih
  | @block left right body ts hleft hbody hright _ ih =>
    have hopen : LeavesOpen ([left] ++ body) 1 := (LeavesOpen.nil.snoc_lCurly hleft).append hbody
    have hwhole := (hopen.snoc_rCurly hright).append ih
    simpa using hwhole

/-- The tokens that recovery skips behind a statement that failed, up to `back`, if the statement
    consumed `used`. The token that a statement begins with is skipped in any case. -/
inductive SkippedBehind (back : List Token) : (used skipped : List Token) → Prop
  | first {t : Token} {ts : List Token} (hbrace : t.kind.isBrace = false)
      (hkind : t.kind ≠ .punctuation .semicolon) (hrest : SkippedTo back ts) :
      SkippedBehind back [] (t :: ts)
  | later {t : Token} {used ts : List Token} (hkind : t.kind ≠ .punctuation .semicolon)
      (hrest : SkippedTo back ts) : SkippedBehind back (used ++ [t]) ts

/-- Nothing is skipped inside of braces without its closing brace. -/
theorem SkippedBehind.balanced {back used skipped : List Token}
    (h : SkippedBehind back used skipped) : Balanced skipped := by
  cases h with
  | first hbrace _ hrest => exact (LeavesOpen.nil.snoc_other hbrace).append hrest.balanced
  | later _ hrest => exact hrest.balanced

/-- Behind a statement that failed reading goes on where the skipped tokens end. -/
theorem SkippedBehind.rest_resume {c d : Cursor} {back used skipped : List Token}
    (h : SkippedBehind back used skipped) (hreads : c.Reads used d) (hrest : d.rest = skipped ++ back) :
    ∃ previous, resume (d.remaining == c.remaining) d = ⟨previous, back, c.eof⟩ := by
  cases h with
  | @first t ts hbrace hkind hskipped =>
    have hmidway : Midway (some t) := by
      rintro u ⟨⟩
      exact hkind
    obtain rfl := hreads.eq_of_nil
    rw [beq_self_eq_true]
    simp only [resume, hrest, List.cons_append, braceDepth_of_not_isBrace hbrace]
    exact hskipped.exists_skipToBoundary hmidway
  | @later t used ts hkind hskipped =>
    have hmidway : Midway d.previous := by
      intro u hu
      rw [hreads.previous, List.getLast?_concat, Option.some_or] at hu
      obtain rfl := Option.some.inj hu
      exact hkind
    have hmoves : (d.remaining == c.remaining) = false := by
      have hremaining := hreads.remaining_eq
      rw [List.length_append, List.length_singleton] at hremaining
      exact beq_false_of_ne (by omega)
    rw [hmoves, ← hreads.eof]
    simp only [resume, hrest]
    exact hskipped.exists_skipToBoundary hmidway

/-- A statement that fails in its first part is skipped up to the end of that part, wherever in it
    the statement fails. -/
theorem exists_resume_header {c d : Cursor} {used : List Token} {word : Token}
    (hrest : c.rest = word :: (header ++ us)) (hbrace : word.kind.isBrace = false)
    (hsemicolon : word.kind ≠ .punctuation .semicolon) (hheader : ∀ t ∈ header, InHeader t)
    (hreads : c.Reads used d) (hahead : us <:+ d.rest) :
    ∃ previous, Midway previous ∧
      resume (d.remaining == c.remaining) d = skipToBoundary 0 previous c.eof us := by
  cases used with
  | nil =>
    have hword : Midway (some word) := by
      rintro t ⟨⟩
      exact hsemicolon
    obtain rfl := hreads.eq_of_nil
    rw [beq_self_eq_true]
    simp only [resume, hrest, braceDepth_of_not_isBrace hbrace]
    exact exists_skipToBoundary_header hword hheader
  | cons t used =>
    obtain ⟨ahead, hahead⟩ := hahead
    have hsplit : word :: header = t :: (used ++ ahead) := by
      have hwhole := hreads.rest
      rw [hrest, ← hahead, ← List.append_assoc, ← List.cons_append] at hwhole
      exact List.append_cancel_right hwhole
    obtain ⟨rfl, rfl⟩ := List.cons.inj hsplit
    obtain ⟨hused, hunread⟩ := List.forall_mem_append.1 hheader
    have hprevious : Midway d.previous := by
      intro u hu
      rw [hreads.previous, List.getLast?_cons, Option.some_or] at hu
      obtain rfl := Option.some.inj hu
      cases hlast : used.getLast? with
      | none => exact hsemicolon
      | some v => exact (hused v (List.mem_of_getLast? hlast)).semicolon
    have hmoves : (d.remaining == c.remaining) = false := by
      have hremaining := hreads.remaining_eq
      rw [List.length_cons] at hremaining
      exact beq_false_of_ne (by omega)
    rw [hmoves, ← hreads.eof]
    simp only [resume, ← hahead]
    exact exists_skipToBoundary_header hprevious hunread

/-- A statement that fails in front of its block is skipped with its block. -/
theorem resume_block {c d : Cursor} {used : List Token} {word : Token}
    (hrest : c.rest = word :: (header ++ left :: (body ++ right :: us)))
    (hbrace : word.kind.isBrace = false) (hsemicolon : word.kind ≠ .punctuation .semicolon)
    (hheader : ∀ t ∈ header, InHeader t) (hleft : left.kind = .punctuation .lCurly)
    (hbody : Balanced body) (hright : right.kind = .punctuation .rCurly)
    (hreads : c.Reads used d) (hahead : left :: (body ++ right :: us) <:+ d.rest) :
    resume (d.remaining == c.remaining) d = skipToBoundary 0 (some right) c.eof us := by
  obtain ⟨previous, hprevious, hresume⟩ :=
    exists_resume_header hrest hbrace hsemicolon hheader hreads hahead
  rw [hresume, skipToBoundary_block hprevious hleft hbody hright]

end GeoLang.Grammar
