import GeoLang.Proofs.Sentence.Program

namespace GeoLang.Grammar

variable {α β γ : Type}

/-- The errors of a reply; the one that made the rule fail is the last. -/
def Reply.reports (x : Reply α) : List ParseError :=
  match x.result with
  | .ok _ => x.errors
  | .error e => x.errors ++ [e]

/-- What `y` reports is reported in `x` too, behind nothing but wrong types and numbers of
    arguments. If `x` fails for no other reason, it fails where `y` does. -/
structure Reply.Carries (x : Reply α) (y : Reply β) : Prop where
  reports : ∃ noted more, x.reports = noted ++ (y.reports ++ more) ∧ Clean noted
  stops : ¬ Clean y.reports → Clean x.errors → Clean y.errors ∧ x.cursor = y.cursor

namespace Reply.Carries

/-- A reply carries itself. -/
theorem refl (x : Reply α) : x.Carries x :=
  ⟨⟨[], [], by simp, .nil⟩, fun _ hclean => ⟨hclean, rfl⟩⟩

/-- What is carried is carried along. -/
theorem trans {x : Reply α} {y : Reply β} {z : Reply γ} (hxy : x.Carries y) (hyz : y.Carries z) :
    x.Carries z := by
  obtain ⟨⟨noted, more, hx, hnoted⟩, hstops⟩ := hxy
  obtain ⟨⟨noted', more', hy, hnoted'⟩, hstops'⟩ := hyz
  refine ⟨⟨noted ++ noted', more' ++ more, by simp [hx, hy], hnoted.append hnoted'⟩, ?_⟩
  intro hz hclean
  have hdirty : ¬ Clean y.reports := by
    rw [hy, Clean.append_iff, Clean.append_iff]
    exact fun hall => hz hall.2.1
  obtain ⟨hcleanY, hcursor⟩ := hstops hdirty hclean
  obtain ⟨hcleanZ, hcursor'⟩ := hstops' hz hcleanY
  exact ⟨hcleanZ, hcursor.trans hcursor'⟩

end Reply.Carries

namespace Rule

/-- The rule notices at one of the tokens that they are nested too deeply, before it finds anything
    else wrong with them than types and numbers of arguments. -/
def Overruns (r : Rule α) (c : Cursor) : Prop :=
  ∃ used d, c.Reads used d ∧ d.rest ≠ [] ∧ (r c).Carries ((tooDeep : Rule Unit) d)

/-- The rule succeeds at `c` and stops at `d`. -/
structure Passes (r : Rule α) (c d : Cursor) : Prop where
  returns : ∃ a es, r.Returns c a d es ∧ Clean es
  reads : ∃ used, c.Reads used d

/-- What the wide language derives, the narrow one derives too, unless the rule overruns. -/
def Confines (r : Rule α) (wide narrow : Language α) (follows : Token → Prop) : Prop :=
  ∀ c a ts d, wide a ts → c.Reads ts d → follows d.peek → narrow a ts ∨ r.Overruns c

/-- A rule that accepts its tokens passes them. -/
theorem Accepts.passes {r : Rule α} {bare : α → β} {language : Language α} {follows : Token → Prop}
    (haccepts : r.Accepts bare language follows) {c d : Cursor} {a : α} {ts : List Token}
    (ha : language a ts) (hreads : c.Reads ts d) (hfollows : follows d.peek) : r.Passes c d := by
  obtain ⟨b, es, hreturns, _, hclean⟩ := haccepts _ _ _ _ ha hreads hfollows
  exact ⟨⟨b, es, hreturns, hclean⟩, ts, hreads⟩

variable {r : Rule α} {f : α → Rule β} {c d : Cursor} {y : Reply γ}

/-- A sequence carries what its first part does. -/
theorem carries_bind (hr : (r c).Carries y) (f : α → Rule β) : ((r >>= f) c).Carries y := by
  refine .trans ?_ hr
  cases hresult : (r c).result with
  | error e =>
    rw [bind_apply_error hresult]
    exact ⟨⟨[], [], by simp [Reply.reports, hresult], .nil⟩, fun _ hclean => ⟨hclean, rfl⟩⟩
  | ok a =>
    have hreports : (r c).reports = (r c).errors := by simp only [Reply.reports, hresult]
    rw [bind_apply_ok hresult]
    refine ⟨⟨[], (f a (r c).cursor).reports, ?_, .nil⟩, fun hdirty hclean => ?_⟩
    · rw [hreports]
      cases hf : (f a (r c).cursor).result with
      | ok b => simp only [Reply.reports, hf, List.nil_append]
      | error e => simp only [Reply.reports, hf, List.nil_append, List.append_assoc]
    · rw [hreports] at hdirty
      exact absurd (Clean.append_iff.1 hclean).1 hdirty

/-- Behind a part that succeeds a sequence carries what the rest of it does. -/
theorem Returns.carries_bind {a : α} {es : List ParseError} (hfirst : r.Returns c a d es)
    (hes : Clean es) (hf : (f a d).Carries y) : ((r >>= f) c).Carries y := by
  refine .trans ?_ hf
  rw [bind_apply_ok (by rw [hfirst]), hfirst]
  refine ⟨⟨es, [], ?_, hes⟩, fun _ hclean => ⟨(Clean.append_iff.1 hclean).2, rfl⟩⟩
  cases hf : (f a d).result with
  | ok b => simp only [Reply.reports, hf, List.append_nil]
  | error e => simp only [Reply.reports, hf, List.append_nil, List.append_assoc]

/-- Behind tokens that are passed, what the rest carries is carried. -/
theorem Passes.carries_bind (hr : r.Passes c d) (hf : ∀ a, (f a d).Carries y) :
    ((r >>= f) c).Carries y := by
  obtain ⟨⟨a, es, hreturns, hclean⟩, -⟩ := hr
  exact hreturns.carries_bind hclean (hf a)

/-- A rule overruns if it carries what another one does that overruns further on. -/
theorem Overruns.carried {s : Rule β} (hs : s.Overruns d) {used : List Token}
    (hreads : c.Reads used d) (hcarries : (r c).Carries (s d)) : r.Overruns c := by
  obtain ⟨more, e, hmore, hrest, htooDeep⟩ := hs
  exact ⟨used ++ more, e, hreads.trans hmore, hrest, hcarries.trans htooDeep⟩

/-- A sequence overruns when its first part does. -/
theorem Overruns.bind (hr : r.Overruns c) (f : α → Rule β) : (r >>= f).Overruns c :=
  hr.carried (.refl c) (carries_bind (.refl _) f)

/-- A sequence overruns if its first part succeeds and what comes behind it overruns. -/
theorem Passes.bind (hr : r.Passes c d) (hf : ∀ a, (f a).Overruns d) : (r >>= f).Overruns c := by
  obtain ⟨⟨a, es, hreturns, hclean⟩, used, hreads⟩ := hr
  exact (hf a).carried hreads (hreturns.carries_bind hclean (.refl _))

end Rule

open Rule

section

variable {c : Cursor} {y : Reply γ}

theorem carries_peek_bind {f : Token → Rule β} (hf : (f c.peek c).Carries y) :
    ((peek >>= f) c).Carries y :=
  Returns.carries_bind rfl .nil hf

theorem carries_spanSince_bind {f : Span → Rule β} {start : Span}
    (hf : (f (c.spanSince start) c).Carries y) : ((spanSince start >>= f) c).Carries y :=
  Returns.carries_bind rfl .nil hf

/-- A look ahead does not keep a rule from overrunning. -/
theorem overruns_peek_bind {f : Token → Rule β} (hf : (f c.peek).Overruns c) :
    (peek >>= f).Overruns c :=
  hf.carried (.refl c) (carries_peek_bind (.refl _))

theorem overruns_peekSecond_bind {f : Token → Rule β} (hf : (f c.second).Overruns c) :
    (peekSecond >>= f).Overruns c :=
  hf.carried (.refl c) (Returns.carries_bind rfl .nil (.refl _))

theorem overruns_atAssignment_bind {f : Bool → Rule β} (hf : (f (assignsPath c.rest)).Overruns c) :
    (atAssignment >>= f).Overruns c :=
  hf.carried (.refl c) (Returns.carries_bind rfl .nil (.refl _))

theorem overruns_spanSince_bind {f : Span → Rule β} {start : Span}
    (hf : (f (c.spanSince start)).Overruns c) : (spanSince start >>= f).Overruns c :=
  hf.carried (.refl c) (carries_spanSince_bind (.refl _))

end

/-- A single token is passed, whatever it is. -/
theorem passes_advance (c : Cursor) : advance.Passes c c.advance :=
  ⟨⟨(), [], rfl, .nil⟩, c.exists_reads_advance⟩

theorem passes_keyword {word : Keyword} {c : Cursor} (hword : c.peek.kind = .keyword word) :
    (keyword word).Passes c c.advance :=
  ⟨⟨_, [], returns_keyword_iff.2 ⟨hword, rfl, rfl, rfl⟩, .nil⟩, c.exists_reads_advance⟩

/-- So is a mark where it is expected. -/
theorem passes_mark {p : Punctuation} {c : Cursor} (hmark : c.peek.kind = .punctuation p)
    (x : Expectation) : (mark p x).Passes c c.advance :=
  ⟨⟨_, [], returns_mark_iff.2 ⟨hmark, rfl, rfl, rfl⟩, .nil⟩, c.exists_reads_advance⟩

theorem passes_closeParenthesis {c : Cursor} (hclose : c.peek.kind = .punctuation .rParen) :
    closeParenthesis.Passes c c.advance :=
  ⟨⟨_, [], returns_closeParenthesis_iff.2 ⟨hclose, rfl, rfl, rfl⟩, .nil⟩, c.exists_reads_advance⟩

/-- No level is left where there is still something to read. -/
theorem overruns_tooDeep {c : Cursor} (hne : c.rest ≠ []) : (tooDeep : Rule α).Overruns c :=
  ⟨[], c, .refl c, hne, ⟨⟨[], [], rfl, .nil⟩, fun _ hclean => ⟨hclean, rfl⟩⟩⟩

/-- Below the last level every rule overruns at its first token. -/
theorem confines_tooDeep {wide narrow : Language α} {follows first : Token → Prop}
    (hbegins : wide.Begins first) : (tooDeep : Rule α).Confines wide narrow follows := by
  intro c a ts d ha hreads _
  obtain ⟨t, us, rfl, _⟩ := hbegins a ts ha
  refine .inr (overruns_tooDeep ?_)
  rw [hreads.rest]
  simp

/-- A loop carries what its first run does. -/
theorem carries_many {next? : Token → Option γ} {item : γ → Rule α} {c : Cursor} {g : γ} {y : Reply β}
    (hnext : next? c.peek = some g) (hitem : (item g c).Carries y) :
    (many next? item c).Carries y := by
  refine .trans ?_ hitem
  rw [many]
  simp only [hnext]
  cases hresult : (item g c).result with
  | error e =>
    exact ⟨⟨[], [], by simp [Reply.reports, hresult], .nil⟩, fun _ hclean => ⟨hclean, rfl⟩⟩
  | ok a =>
    have hreports : (item g c).reports = (item g c).errors := by simp only [Reply.reports, hresult]
    by_cases hless : (item g c).cursor.remaining < c.remaining
    · simp only [if_pos hless]
      refine ⟨⟨[], (many next? item (item g c).cursor).reports, ?_, .nil⟩, fun hdirty hclean => ?_⟩
      · rw [hreports]
        cases hrest : (many next? item (item g c).cursor).result with
        | ok as => simp only [Reply.reports, Except.map, hrest, List.nil_append]
        | error e => simp only [Reply.reports, Except.map, hrest, List.nil_append, List.append_assoc]
      · rw [hreports] at hdirty
        exact absurd (Clean.append_iff.1 hclean).1 hdirty
    · simp only [if_neg hless]
      refine ⟨⟨[], [], by simp [Reply.reports, hresult], .nil⟩, fun hdirty hclean => ?_⟩
      rw [hreports] at hdirty
      exact absurd hclean hdirty

/-- A loop overruns where its next turn does. -/
theorem overruns_many {next? : Token → Option γ} {item : γ → Rule α} {c : Cursor} {g : γ}
    (hnext : next? c.peek = some g) (hitem : (item g).Overruns c) : (many next? item).Overruns c :=
  hitem.carried (.refl c) (carries_many hnext (.refl _))

/-- Behind a run that succeeds a loop carries what the rest of it does. -/
theorem carries_many_behind {next? : Token → Option γ} {item : γ → Rule α} {c d : Cursor} {g : γ}
    {a : α} {es : List ParseError} {y : Reply β} (hnext : next? c.peek = some g)
    (hitem : (item g).Returns c a d es) (hless : d.remaining < c.remaining) (hes : Clean es)
    (hrest : (many next? item d).Carries y) : (many next? item c).Carries y := by
  refine .trans ?_ hrest
  rw [Returns] at hitem
  rw [many]
  simp only [hnext, hitem, if_pos hless]
  refine ⟨⟨es, [], ?_, hes⟩, fun _ hclean => ⟨(Clean.append_iff.1 hclean).2, rfl⟩⟩
  cases hothers : (many next? item d).result with
  | ok as => simp only [Reply.reports, hothers, Except.map, List.append_nil]
  | error e => simp only [Reply.reports, hothers, Except.map, List.append_nil, List.append_assoc]

/-- A loop carries what it does behind turns without other errors. -/
theorem Leads.carries_many {next? : Token → Option γ} {item : γ → Rule α} {c d : Cursor}
    {as : List α} {es : List ParseError} {y : Reply β} (hleads : Leads next? item c as d es)
    (hclean : Clean es) (hrest : (many next? item d).Carries y) : (many next? item c).Carries y := by
  induction hleads with
  | refl => exact hrest
  | more hnext hitem hless _ ih =>
    obtain ⟨hes, hfs⟩ := Clean.append_iff.1 hclean
    exact carries_many_behind hnext hitem hless hes (ih hfs hrest)

/-- Items in a row are confined when each of them is, by induction on the row. -/
theorem Items.confined {next? : Token → Option Unit} {item : Rule α} {bare : α → β}
    {wide narrow : Language α} {first follows : Token → Prop} (hbegins : wide.Begins first)
    (hfirst : ∀ t, first t → next? t = some () ∧ follows t)
    (haccepts : item.Accepts bare narrow follows) (hconfines : item.Confines wide narrow follows)
    {c d : Cursor} {as : List α} {ts : List Token} (hitems : Items wide as ts)
    (hreads : c.Reads ts d) (hfollows : follows d.peek) :
    Items narrow as ts ∨ (many next? fun _ => item).Overruns c := by
  induction hitems generalizing c with
  | nil => exact .inl .nil
  | @cons a as ts us ha has ih =>
    obtain ⟨c', hts, hus⟩ := hreads.of_append
    have hbehind := has.follows hbegins (fun t ht => (hfirst t ht).2) hus hfollows
    obtain ⟨t, ts', rfl, ht⟩ := hbegins a ts ha
    obtain ⟨_, rfl⟩ := hts.of_cons
    have hnext := (hfirst _ ht).1
    obtain hnarrow | hover := hconfines c a _ c' ha hts hbehind
    · obtain ⟨b, es, hreturns, _, hclean⟩ := haccepts c a _ c' hnarrow hts hbehind
      have hless : c'.remaining < c.remaining := by
        rw [hts.remaining_eq, List.length_cons]
        omega
      obtain hrest | hover := ih hus
      · exact .inl (.cons hnarrow hrest)
      · exact .inr (hover.carried hts (carries_many_behind hnext hreturns hless hclean (.refl _)))
    · exact .inr (overruns_many hnext hover)

end GeoLang.Grammar
