import GeoLang.Proofs.Reading.Cursor
import GeoLang.Proofs.Reading.Outcome
import GeoLang.Proofs.Sentence.Grammar

namespace GeoLang.Grammar

variable {α β : Type}

/-- Whatever the language derives is read by the rule, up to spans, if the token behind it is one
    that may follow. -/
def Rule.Accepts (r : Rule α) (bare : α → β) (language : Language α) (follows : Token → Prop) :
    Prop :=
  ∀ c a ts d, language a ts → c.Reads ts d → follows d.peek →
    ∃ b es, r.Returns c b d es ∧ bare b = bare a ∧ Clean es

/-- Whatever the language derives begins with such a token. -/
def Language.Begins (language : Language α) (first : Token → Prop) : Prop :=
  ∀ a ts, language a ts → ∃ t us, ts = t :: us ∧ first t

theorem Clean.nil : Clean [] := by simp [Clean]

theorem Clean.append {es fs : List ParseError} (hes : Clean es) (hfs : Clean fs) :
    Clean (es ++ fs) :=
  Clean.append_iff.2 ⟨hes, hfs⟩

/-- The first error that made an attempt fail. -/
theorem exists_of_not_clean {es : List ParseError} (hes : ¬ Clean es) :
    ∃ noted e others, es = noted ++ e :: others ∧ Clean noted ∧ e.isSyntactic = true := by
  induction es with
  | nil => exact absurd .nil hes
  | cons e es ih =>
    cases hsyntactic : e.isSyntactic with
    | true => exact ⟨[], e, es, rfl, .nil, hsyntactic⟩
    | false =>
      have hrest : ¬ Clean es := fun hclean => hes (List.forall_mem_cons.2 ⟨hsyntactic, hclean⟩)
      obtain ⟨noted, f, others, rfl, hnoted, hf⟩ := ih hrest
      exact ⟨e :: noted, f, others, rfl, List.forall_mem_cons.2 ⟨hsyntactic, hnoted⟩, hf⟩

/-- There is only one first error of an attempt. -/
theorem Clean.append_cons_inj {es es' fs fs' : List ParseError} {e e' : ParseError} (hes : Clean es)
    (hes' : Clean es') (he : e.isSyntactic = true) (he' : e'.isSyntactic = true)
    (hsplit : es ++ e :: fs = es' ++ e' :: fs') : es = es' ∧ e = e' ∧ fs = fs' := by
  induction es generalizing es' with
  | nil =>
    cases es' with
    | nil => simpa using hsplit
    | cons f es' =>
      obtain ⟨rfl, -⟩ := List.cons.inj hsplit
      rw [hes' _ List.mem_cons_self] at he
      cases he
  | cons f es ih =>
    cases es' with
    | nil =>
      obtain ⟨rfl, -⟩ := List.cons.inj hsplit
      rw [hes _ List.mem_cons_self] at he'
      cases he'
    | cons f' es' =>
      obtain ⟨rfl, hrest⟩ := List.cons.inj hsplit
      obtain ⟨rfl, heq⟩ :=
        ih (List.forall_mem_cons.1 hes).2 (List.forall_mem_cons.1 hes').2 hrest
      exact ⟨rfl, heq⟩

/-- What may follow the items may follow whatever stands in front of them, if an item may. -/
theorem Items.follows {language : Language α} {first follows : Token → Prop}
    (hbegins : language.Begins first) (hfirst : ∀ t, first t → follows t) {c d : Cursor}
    {as : List α} {ts : List Token} (hitems : Items language as ts) (hreads : c.Reads ts d)
    (hend : follows d.peek) : follows c.peek := by
  cases hitems with
  | nil =>
    obtain rfl := hreads.eq_of_nil
    exact hend
  | cons hitem _ =>
    obtain ⟨t, us, rfl, ht⟩ := hbegins _ _ hitem
    obtain ⟨_, rfl⟩ := hreads.of_cons
    exact hfirst _ ht

/-- Items run one after the other, each of which consumes something. What comes behind them is left
    open. -/
inductive Leads {γ : Type} (next? : Token → Option γ) (item : γ → Rule α) :
    Cursor → List α → Cursor → List ParseError → Prop where
  | refl (c : Cursor) : Leads next? item c [] c []
  | more {c c' d : Cursor} {g : γ} {a : α} {as : List α} {es₁ es₂ : List ParseError}
      (hnext : next? c.peek = some g) (hitem : (item g).Returns c a c' es₁)
      (hless : c'.remaining < c.remaining) (hrest : Leads next? item c' as d es₂) :
      Leads next? item c (a :: as) d (es₁ ++ es₂)

section

variable {γ : Type} {next? : Token → Option γ} {item : γ → Rule α}

/-- One more item behind those that the loop has read. -/
theorem Leads.snoc {c c' d : Cursor} {g : γ} {a : α} {as : List α} {es₁ es₂ : List ParseError}
    (hleads : Leads next? item c as c' es₁) (hnext : next? c'.peek = some g)
    (hitem : (item g).Returns c' a d es₂) (hless : d.remaining < c'.remaining) :
    Leads next? item c (as ++ [a]) d (es₁ ++ es₂) := by
  induction hleads with
  | refl =>
    have hone := Leads.more hnext hitem hless (.refl d)
    rwa [List.append_nil] at hone
  | more hnext' hitem' hless' _ ih =>
    rw [List.append_assoc]
    exact .more hnext' hitem' hless' (ih hnext hitem hless)

/-- A loop that has read items goes on with the rest. -/
theorem Leads.repeats {c c' d : Cursor} {as bs : List α} {es fs : List ParseError}
    (hleads : Leads next? item c as c' es) (hrest : Repeats next? item c' bs d fs) :
    Repeats next? item c (as ++ bs) d (es ++ fs) := by
  induction hleads with
  | refl => exact hrest
  | more hnext hitem hless _ ih =>
    rw [List.append_assoc]
    exact .more hnext hitem hless (ih hrest)

end

/-- Items are read one after the other, if each may be followed by the next. -/
theorem Leads.of_items {next? : Token → Option Unit} {item : Rule α} {bare : α → β}
    {language : Language α} {first follows : Token → Prop} (hbegins : language.Begins first)
    (hfirst : ∀ t, first t → next? t = some () ∧ follows t)
    (hitem : item.Accepts bare language follows) {c d : Cursor} {as : List α} {ts : List Token}
    (hitems : Items language as ts) (hreads : c.Reads ts d) (hfollows : follows d.peek) :
    ∃ bs es, Leads next? (fun _ => item) c bs d es ∧ bs.map bare = as.map bare ∧ Clean es := by
  induction hitems generalizing c with
  | nil =>
    obtain rfl := hreads.eq_of_nil
    exact ⟨[], [], .refl _, rfl, .nil⟩
  | @cons a as ts us ha has ih =>
    obtain ⟨c', hts, hus⟩ := hreads.of_append
    obtain ⟨t, ts', rfl, ht⟩ := hbegins a ts ha
    obtain ⟨_, hpeek⟩ := hts.of_cons
    obtain ⟨hnext, _⟩ := hfirst t ht
    have hless : c'.remaining < c.remaining := by
      rw [hts.remaining_eq, List.length_cons]
      omega
    have hbehind := has.follows hbegins (fun t ht => (hfirst t ht).2) hus hfollows
    obtain ⟨b, es, hreturns, hb, hes⟩ := hitem c a _ c' ha hts hbehind
    obtain ⟨bs, fs, hleads, hbs, hfs⟩ := ih hus
    refine ⟨b :: bs, es ++ fs, .more (by rw [hpeek, hnext]) hreturns hless hleads, ?_, hes.append hfs⟩
    rw [List.map_cons, List.map_cons, hb, hbs]

/-- Items are all that is read in front of a token on which no item is run. -/
theorem Repeats.of_items {next? : Token → Option Unit} {item : Rule α} {bare : α → β}
    {language : Language α} {first follows : Token → Prop} (hbegins : language.Begins first)
    (hfirst : ∀ t, first t → next? t = some () ∧ follows t)
    (hitem : item.Accepts bare language follows) {c d : Cursor} {as : List α} {ts : List Token}
    (hitems : Items language as ts) (hreads : c.Reads ts d) (hend : next? d.peek = none)
    (hfollows : follows d.peek) :
    ∃ bs es, Repeats next? (fun _ => item) c bs d es ∧ bs.map bare = as.map bare ∧ Clean es := by
  obtain ⟨bs, es, hleads, hsame, hclean⟩ :=
    Leads.of_items hbegins hfirst hitem hitems hreads hfollows
  have hrepeats := hleads.repeats (.stop hend)
  rw [List.append_nil, List.append_nil] at hrepeats
  exact ⟨bs, es, hrepeats, hsame, hclean⟩

/-- What is read item after item has the form of such items, if each of them has. -/
theorem Repeats.exists_items {next? : Token → Option Unit} {item : Rule α} {language : Language α}
    (hitem : ∀ b c a d es, next? c.peek = some b → c.eof.kind = .eof → item.Returns c a d es →
      ∃ ts, c.Reads ts d ∧ language a ts)
    {c d : Cursor} {as : List α} {es : List ParseError}
    (hrepeats : Repeats next? (fun _ => item) c as d es) (heof : c.eof.kind = .eof) :
    ∃ ts, c.Reads ts d ∧ Items language as ts := by
  induction hrepeats with
  | @stop c _ => exact ⟨[], .refl c, .nil⟩
  | stuck hnext hreturns =>
    obtain ⟨ts, hts, hform⟩ := hitem _ _ _ _ _ hnext heof hreturns
    refine ⟨ts, hts, ?_⟩
    have hitems := Items.cons hform .nil
    rwa [List.append_nil] at hitems
  | more hnext hreturns _ _ ih =>
    obtain ⟨ts, hts, hform⟩ := hitem _ _ _ _ _ hnext heof hreturns
    obtain ⟨us, hus, hforms⟩ := ih (by rw [hts.eof, heof])
    exact ⟨ts ++ us, hts.trans hus, .cons hform hforms⟩

theorem led_begins (p : Punctuation) (language : Language α) :
    (Language.Begins (Led p language)) fun t => t.kind = .punctuation p := by
  rintro a ts ⟨hmark, _⟩
  exact ⟨_, _, rfl, hmark⟩

end GeoLang.Grammar
