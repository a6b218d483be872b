import GeoLang.Proofs.Extent.Tree
import GeoLang.Proofs.Reading.Composed

namespace GeoLang

variable {good : Span → Prop}

/-- The span of the error, if it has one, is good. -/
def ParseError.Placed (good : Span → Prop) (e : ParseError) : Prop := ∀ s ∈ e.span?, good s

namespace Grammar

variable {α β : Type}

/-- The tokens in sight, the token consumed last and the end of the text have good spans. -/
structure Cursor.Placed (good : Span → Prop) (c : Cursor) : Prop where
  rest : ∀ t ∈ c.rest, good t.span
  eof : good c.eof.span
  previous : ∀ t ∈ c.previous, good t.span

/-- Reading keeps a cursor placed. -/
theorem Cursor.Placed.of_reads {c d : Cursor} {used : List Token} (hc : c.Placed good)
    (hreads : c.Reads used d) : d.Placed good where
  rest := fun t ht => hc.rest t (hreads.subset ht)
  eof := by rw [hreads.eof]; exact hc.eof
  previous := by
    intro t ht
    rw [hreads.previous, Option.mem_def, Option.or_eq_some_iff] at ht
    obtain hlast | ⟨-, hprevious⟩ := ht
    · refine hc.rest t ?_
      rw [hreads.rest]
      exact List.mem_append_left _ (List.mem_of_getLast? hlast)
    · exact hc.previous t hprevious

/-- The current token, the end of the text included, has a good span. -/
theorem Cursor.Placed.peek {c : Cursor} (hc : c.Placed good) : good c.peek.span := by
  cases hrest : c.rest with
  | nil =>
    rw [Cursor.peek, hrest]
    exact hc.eof
  | cons t ts =>
    rw [Cursor.peek, hrest]
    exact hc.rest t (by rw [hrest]; exact List.mem_cons_self)

/-- What comes out of a rule is placed: its value has the property, and so on. -/
structure Reply.Placed (good : Span → Prop) (x : Reply α) (property : α → Prop) : Prop where
  cursor : x.cursor.Placed good
  errors : ∀ e ∈ x.errors, e.Placed good
  value : ∀ a, x.result = .ok a → property a
  failure : ∀ e, x.result = .error e → e.Placed good

/-- From a placed cursor the rule gives placed replies. -/
def Rule.Places (good : Span → Prop) (r : Rule α) (property : α → Prop) : Prop :=
  ∀ c : Cursor, c.Placed good → (r c).Placed good property

namespace Rule.Places

/-- Weakening what is known of the value. -/
theorem mono {r : Rule α} {property weaker : α → Prop} (hr : r.Places good property)
    (himplies : ∀ a, property a → weaker a) : r.Places good weaker := by
  intro c hc
  obtain ⟨hcursor, herrors, hvalue, hfailure⟩ := hr c hc
  exact ⟨hcursor, herrors, fun a ha => himplies a (hvalue a ha), hfailure⟩

/-- A rule that stays where it is, notes nothing and succeeds. -/
theorem of_stays {r : Rule α} {property : α → Prop} {v : Cursor → α}
    (hr : ∀ c, r c = ⟨.ok (v c), c, []⟩)
    (hvalue : ∀ c : Cursor, c.Placed good → property (v c)) : r.Places good property := by
  intro c hc
  rw [hr]
  refine ⟨hc, by simp, ?_, by simp⟩
  rintro a ⟨⟩
  exact hvalue c hc

protected theorem pure {a : α} {property : α → Prop} (ha : property a) :
    (pure a : Rule α).Places good property :=
  of_stays (v := fun _ => a) (fun _ => rfl) fun _ _ => ha

/-- The second rule starts from what is known of the value of the first. -/
protected theorem bind {r : Rule α} {f : α → Rule β} {first : α → Prop} {property : β → Prop}
    (hr : r.Places good first) (hf : ∀ a, first a → (f a).Places good property) :
    (r >>= f).Places good property := by
  intro c hc
  obtain ⟨hcursor, herrors, hvalue, hfailure⟩ := hr c hc
  cases hresult : (r c).result with
  | error e =>
    rw [bind_apply_error hresult]
    refine ⟨hcursor, herrors, by simp, ?_⟩
    rintro e ⟨⟩
    exact hfailure _ hresult
  | ok a =>
    have hrest := hf a (hvalue a hresult) _ hcursor
    rw [bind_apply_ok hresult]
    refine ⟨hrest.cursor, ?_, hrest.value, hrest.failure⟩
    intro e he
    obtain he | he := List.mem_append.1 he
    · exact herrors e he
    · exact hrest.errors e he

theorem peek : Grammar.peek.Places good fun t => good t.span :=
  of_stays (v := Cursor.peek) (fun _ => rfl) fun _ hc => hc.peek

theorem peekSecond : Grammar.peekSecond.Places good fun _ => True :=
  of_stays (v := Cursor.second) (fun _ => rfl) fun _ _ => trivial

theorem atAssignment : Grammar.atAssignment.Places good fun _ => True :=
  of_stays (v := fun c => assignsPath c.rest) (fun _ => rfl) fun _ _ => trivial

theorem advance : Grammar.advance.Places good fun _ => True := by
  intro c hc
  obtain ⟨used, hreads⟩ := c.exists_reads_advance
  refine ⟨hc.of_reads hreads, ?_, fun _ _ => trivial, ?_⟩
  · simp [Grammar.advance]
  · simp [Grammar.advance]

theorem note {e : ParseError} (he : e.Placed good) :
    (Grammar.note e).Places good fun _ => True := by
  intro c hc
  refine ⟨hc, ?_, fun _ _ => trivial, ?_⟩
  · simpa [Grammar.note] using he
  · simp [Grammar.note]

theorem fail {property : α → Prop} {e : ParseError} (he : e.Placed good) :
    (Grammar.fail e : Rule α).Places good property := by
  intro c hc
  refine ⟨hc, by simp [Grammar.fail], by simp [Grammar.fail], ?_⟩
  rintro e' ⟨⟩
  exact he

/-- Errors stand at the current token. -/
theorem unexpected {property : α → Prop} (x : Expectation) :
    (Grammar.unexpected x : Rule α).Places good property := by
  refine .bind .peek fun t ht => .fail ?_
  rintro s ⟨⟩
  exact ht

theorem tooDeep {property : α → Prop} : (Grammar.tooDeep : Rule α).Places good property := by
  refine .bind .peek fun t ht => .fail ?_
  rintro s ⟨⟩
  exact ht

theorem ite {p : Prop} [Decidable p] {r s : Rule α} {property : α → Prop}
    (hthen : p → r.Places good property) (helse : ¬ p → s.Places good property) :
    (if p then r else s).Places good property := by
  split
  · next hp => exact hthen hp
  · next hp => exact helse hp

theorem closeParenthesis : Grammar.closeParenthesis.Places good good := by
  refine .bind .peek fun t ht => .ite (fun _ => .bind .advance fun _ _ => .pure ht) fun _ => .fail ?_
  rintro s ⟨⟩
  exact ht

theorem keyword (word : Keyword) : (Grammar.keyword word).Places good good :=
  .bind .peek fun _ ht => .ite (fun _ => .bind .advance fun _ _ => .pure ht) fun _ => .unexpected _

/-- The span of a mark is that of its token. -/
theorem mark (p : Punctuation) (x : Expectation) : (Grammar.mark p x).Places good good :=
  .bind .peek fun _ ht => .ite (fun _ => .bind .advance fun _ _ => .pure ht) fun _ => .unexpected _

theorem name (x : Expectation) : (Grammar.name x).Places good fun _ => True :=
  .bind .peek fun _ _ =>
    .ite (fun _ => .bind .advance fun _ _ => .pure trivial) fun _ => .unexpected _

/-- Again and again the rule starts from where it stopped, so every value has the property. -/
theorem many {next? : Token → Option β} {item : β → Rule α} {property : α → Prop}
    (hitem : ∀ b, (item b).Places good property) :
    (Grammar.many next? item).Places good fun as => ∀ a ∈ as, property a := by
  intro c hc
  rw [Grammar.many]
  cases next? c.peek with
  | none =>
    refine ⟨hc, by simp, ?_, by simp⟩
    rintro as ⟨⟩
    simp
  | some b =>
    obtain ⟨hcursor, herrors, hvalue, hfailure⟩ := hitem b c hc
    cases hresult : (item b c).result with
    | error e =>
      simp only [hresult]
      refine ⟨hcursor, herrors, by simp, ?_⟩
      rintro e ⟨⟩
      exact hfailure _ hresult
    | ok a =>
      have ha := hvalue a hresult
      simp only [hresult]
      split
      · next hless =>
        obtain ⟨hcursor', herrors', hvalue', hfailure'⟩ := many hitem _ hcursor
        refine ⟨hcursor', ?_, ?_, ?_⟩
        · intro e he
          obtain he | he := List.mem_append.1 he
          · exact herrors e he
          · exact herrors' e he
        · intro as has
          cases hrest : (Grammar.many next? item (item b c).cursor).result with
          | error e => simp [hrest, Except.map] at has
          | ok as' =>
            simp only [hrest, Except.map, Except.ok.injEq] at has
            rw [← has]
            exact List.forall_mem_cons.2 ⟨ha, hvalue' as' hrest⟩
        · intro e he
          cases hrest : (Grammar.many next? item (item b c).cursor).result with
          | error e' =>
            simp only [hrest, Except.map, Except.error.injEq] at he
            rw [← he]
            exact hfailure' e' hrest
          | ok as' => simp [hrest, Except.map] at he
      · refine ⟨hcursor, herrors, ?_, by simp⟩
        rintro as ⟨⟩
        simpa using ha
termination_by c => c.remaining

/-- An attempt at a statement notes the error that the statement fails with. -/
theorem recovering {statement : Rule Statement} {property : Statement → Prop}
    (hstatement : statement.Places good property) :
    (Grammar.recovering statement).Places good fun s => ∀ x ∈ s, property x := by
  intro c hc
  obtain ⟨hcursor, herrors, hvalue, hfailure⟩ := hstatement c hc
  rw [Grammar.recovering]
  cases hresult : (statement c).result with
  | ok s =>
    refine ⟨hcursor, herrors, ?_, by simp⟩
    rintro a ⟨⟩ x ⟨⟩
    exact hvalue s hresult
  | error e =>
    obtain ⟨used, hreads⟩ := Cursor.exists_reads_resume
      ((statement c).cursor.remaining == c.remaining) (statement c).cursor
    refine ⟨hcursor.of_reads hreads, ?_, ?_, by simp⟩
    · intro e' he'
      obtain he' | he' := List.mem_append.1 he'
      · exact herrors e' he'
      · obtain rfl := List.mem_singleton.1 he'
        exact hfailure e' hresult
    · rintro a ⟨⟩ x ⟨⟩

end Rule.Places

/-- Merging two good spans gives a good span. -/
def MergesWell (good : Span → Prop) : Prop := ∀ a b, good a → good b → good (a.merge b)

/-- A span that reaches from a good one to the token consumed last is good. -/
theorem Rule.Places.spanSince (hmerge : MergesWell good) {start : Span} (hstart : good start) :
    (Grammar.spanSince start).Places good good := by
  refine .of_stays (v := fun c => c.spanSince start) (fun _ => rfl) fun c hc => ?_
  unfold Cursor.spanSince
  split
  · next t ht =>
    split
    · exact hmerge _ _ hstart (hc.previous t ht)
    · exact hstart
  · exact hstart

end Grammar

end GeoLang
