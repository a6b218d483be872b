import GeoLang.Proofs.Reading.Composed
import GeoLang.Proofs.Sentence.Expression

namespace GeoLang.Grammar

variable {α β γ : Type}

/-- The rule fails at `d` because no level of nesting is left there. Nothing was noted on the
    way. -/
def Rule.Exhausts (r : Rule α) (c d : Cursor) : Prop :=
  r.Fails c (.nestingTooDeep maxNesting d.peek.span) d []

namespace Rule.Exhausts

/-- Below the last level every rule fails on the spot. -/
theorem tooDeep (c : Cursor) : (Grammar.tooDeep : Rule α).Exhausts c c :=
  fails_tooDeep_iff.2 ⟨rfl, rfl, rfl⟩

/-- Nothing comes behind a failure. -/
theorem bind {r : Rule α} {c d : Cursor} (hr : r.Exhausts c d) (f : α → Rule β) :
    (r >>= f).Exhausts c d :=
  fails_bind_iff.2 (.inl hr)

/-- A second rule may fail where the first one stopped. -/
theorem bind_behind {r : Rule α} {f : α → Rule β} {c c' d : Cursor} {a : α}
    (hr : r.Returns c a c' []) (hf : (f a).Exhausts c' d) : (r >>= f).Exhausts c d :=
  fails_bind_iff.2 (.inr ⟨a, c', [], [], hr, hf, rfl⟩)

theorem peek_bind {f : Token → Rule β} {c d : Cursor} (hf : (f c.peek).Exhausts c d) :
    (Grammar.peek >>= f).Exhausts c d :=
  bind_behind rfl hf

/-- A loop fails where its next turn does. -/
theorem many {next? : Token → Option γ} {item : γ → Rule α} {c d : Cursor} {g : γ}
    (hnext : next? c.peek = some g) (hitem : (item g).Exhausts c d) :
    (Grammar.many next? item).Exhausts c d := by
  rw [Exhausts, Fails, Grammar.many]
  rw [Exhausts, Fails] at hitem
  simp only [hnext, hitem]

end Rule.Exhausts

open Rule (Exhausts)

/-- A single operand is an expression. -/
theorem returns_binary_of_factor {n least : Nat} {c d : Cursor} {e : Expr}
    (hfactor : (factor n).Returns c e d []) (hend : jointAt least d.peek = none) :
    (binary (n + 1) least).Returns c e d [] :=
  returns_binaryRule_iff.2 ⟨e, d, [], [], [], hfactor, .stop hend, rfl, rfl⟩

/-- A row fails where its first operand does. -/
theorem exhausts_binary_of_factor {n : Nat} {c d : Cursor} (hfactor : (factor n).Exhausts c d)
    (least : Nat) : (binary (n + 1) least).Exhausts c d :=
  Exhausts.bind hfactor _

/-- One level is enough for a literal. -/
theorem returns_factor_literal (n : Nat) {c : Cursor} {v : Literal}
    (hliteral : c.peek.kind = .literal v) :
    (factor (n + 1)).Returns c (.literal v c.peek.span) c.advance [] :=
  returns_factorRule_iff.2 (.literal hliteral)

/-- The number `1` in `k` pairs of parentheses. -/
def groupKinds : (k : Nat) → List TokenKind
  | 0 => [.literal (.integer 1)]
  | k + 1 => .punctuation .lParen :: (groupKinds k ++ [.punctuation .rParen])

/-- Two levels for each pair of parentheses and two for the number inside; by induction on the
    pairs. -/
theorem exists_returns_groups (k : Nat) {n : Nat} (hlevels : 2 * k + 2 ≤ n) {c d : Cursor}
    {ts : List Token} (hkinds : ts.map Token.kind = groupKinds k) (hreads : c.Reads ts d)
    (hend : jointAt 1 d.peek = none) : ∃ e, (expression n).Returns c e d [] := by
  induction k generalizing n c d ts with
  | zero =>
    obtain ⟨n, rfl⟩ := Nat.exists_eq_add_of_le' hlevels
    obtain ⟨t, rfl, ht⟩ := List.map_eq_singleton_iff.1 hkinds
    obtain ⟨rfl, rfl⟩ := hreads.of_singleton
    exact ⟨_, returns_binary_of_factor (returns_factor_literal n ht) hend⟩
  | succ k ih =>
    obtain ⟨n, rfl⟩ := Nat.exists_eq_add_of_le' hlevels
    obtain ⟨t, us, rfl, hopen, hus⟩ := List.map_eq_cons_iff.1 hkinds
    obtain ⟨ts, vs, rfl, hts, hvs⟩ := List.map_eq_append_iff.1 hus
    obtain ⟨v, rfl, hclose⟩ := List.map_eq_singleton_iff.1 hvs
    obtain ⟨hinside, rfl⟩ := hreads.of_cons
    obtain ⟨c', hinner, hlast⟩ := hinside.of_append
    obtain ⟨rfl, rfl⟩ := hlast.of_singleton
    have hinnerEnd : jointAt 1 c'.peek = none := by simp [jointAt, hclose, TokenKind.operator?]
    obtain ⟨e, he⟩ := ih (Nat.le_add_left (2 * k + 2) n) hts hinner hinnerEnd
    have hfactor : (factor (n + (2 * k + 2) + 1)).Returns c _ c'.advance [] :=
      returns_factorRule_iff.2 (.grouped hopen he hclose)
    exact ⟨_, returns_binary_of_factor hfactor hend⟩

theorem exhausts_factor_zero (c : Cursor) : (factor 0).Exhausts c c := .tooDeep c

/-- A row of operands uses up one level and its first operand another one. -/
theorem exhausts_binary_of_le_one {n : Nat} (hn : n ≤ 1) (least : Nat) (c : Cursor) :
    (binary n least).Exhausts c c := by
  obtain rfl | rfl : n = 0 ∨ n = 1 := by omega
  · exact .tooDeep c
  · exact exhausts_binary_of_factor (exhausts_factor_zero c) least

/-- With fewer levels left than the parentheses use up, reading stops in front of what is behind
    them. -/
theorem exists_exhausts_groups (k : Nat) {n : Nat} (hlevels : n ≤ 2 * k + 1) {c e : Cursor}
    {ts : List Token} (hkinds : ts.map Token.kind = groupKinds k) (hreads : c.Reads ts e) :
    ∃ d, (expression n).Exhausts c d ∧ e.rest <:+ d.rest := by
  induction k generalizing n c e ts with
  | zero => exact ⟨c, exhausts_binary_of_le_one hlevels 1 c, hreads.suffix⟩
  | succ k ih =>
    by_cases hn : n ≤ 1
    · exact ⟨c, exhausts_binary_of_le_one hn 1 c, hreads.suffix⟩
    · obtain ⟨n, rfl⟩ := Nat.exists_eq_add_of_le' (Nat.lt_of_not_le hn)
      obtain ⟨t, us, rfl, hopen, hus⟩ := List.map_eq_cons_iff.1 hkinds
      obtain ⟨ts, vs, rfl, hts, -⟩ := List.map_eq_append_iff.1 hus
      obtain ⟨hinside, rfl⟩ := hreads.of_cons
      obtain ⟨c', hinner, hlast⟩ := hinside.of_append
      obtain ⟨d, hd, hahead⟩ := ih (by omega : n ≤ 2 * k + 1) hts hinner
      have hfactor : (factor (n + 1)).Exhausts c d := by
        refine Exhausts.peek_bind ?_
        simp only [hopen]
        exact .bind_behind rfl (hd.bind _)
      exact ⟨d, exhausts_binary_of_factor hfactor 1, hlast.suffix.trans hahead⟩

/-- The number `2`, raised to the power of `2` again and again, `k` times. -/
def powerKinds : (k : Nat) → List TokenKind
  | 0 => [.literal (.integer 2)]
  | k + 1 => .literal (.integer 2) :: .operator .arithmetic .exponent :: powerKinds k

/-- The strength that an exponent asks of its operand is its own. -/
theorem jointAt_exponent {t : Token} (hop : t.kind = .operator .arithmetic .exponent) {least : Nat}
    (hleast : least ≤ 110) : jointAt least t = some (.exponent, 110) :=
  jointAt_eq_some_iff.2 ⟨by rw [hop]; rfl, rfl, hleast⟩

/-- The right operand of a power begins a row of its own, one level further down. -/
theorem exists_returns_powers (k : Nat) {n least : Nat} (hlevels : k + 2 ≤ n) (hone : 1 ≤ least)
    (hleast : least ≤ 110) {c d : Cursor} {ts : List Token}
    (hkinds : ts.map Token.kind = powerKinds k) (hreads : c.Reads ts d)
    (hend : jointAt 1 d.peek = none) : ∃ e, (binary n least).Returns c e d [] := by
  have hstop := jointAt_eq_none_of_le hone hend
  induction k generalizing n least c ts with
  | zero =>
    obtain ⟨n, rfl⟩ := Nat.exists_eq_add_of_le' hlevels
    obtain ⟨t, rfl, ht⟩ := List.map_eq_singleton_iff.1 hkinds
    obtain ⟨rfl, rfl⟩ := hreads.of_singleton
    exact ⟨_, returns_binary_of_factor (returns_factor_literal n ht) hstop⟩
  | succ k ih =>
    obtain ⟨n, rfl⟩ := Nat.exists_eq_add_of_le' hlevels
    obtain ⟨t, us, rfl, ht, hus⟩ := List.map_eq_cons_iff.1 hkinds
    obtain ⟨u, ts, rfl, hu, hts⟩ := List.map_eq_cons_iff.1 hus
    obtain ⟨hinside, rfl⟩ := hreads.of_cons
    obtain ⟨hinner, rfl⟩ := hinside.of_cons
    have hbound : 1 ≤ 110 := by omega
    obtain ⟨e, he⟩ := ih (by omega : k + 2 ≤ n + (k + 2)) hbound (Nat.le_refl _) hts hinner
      (jointAt_eq_none_of_le hbound hend)
    have hlink : (link (binary (n + (k + 2))) (.exponent, 110)).Returns c.advance (.exponent, e) d [] :=
      returns_link_iff.2 ⟨e, he, rfl⟩
    have hless : d.remaining < c.advance.remaining := by
      rw [hinside.remaining_eq, List.length_cons]
      omega
    have hlinks := Repeats.more (jointAt_exponent hu hleast) hlink hless (.stop hstop)
    exact ⟨_, returns_binaryRule_iff.2
      ⟨_, _, [], _, [], returns_factor_literal (n + (k + 1)) ht, hlinks, rfl, rfl⟩⟩

/-- With fewer levels left than the exponents use up, reading stops in front of what is behind
    them. -/
theorem exists_exhausts_powers (k : Nat) {n : Nat} (hlevels : n ≤ k + 1) {least : Nat}
    (hleast : least ≤ 110) {c e : Cursor} {ts : List Token}
    (hkinds : ts.map Token.kind = powerKinds k) (hreads : c.Reads ts e) :
    ∃ d, (binary n least).Exhausts c d ∧ e.rest <:+ d.rest := by
  induction k generalizing n least c ts with
  | zero => exact ⟨c, exhausts_binary_of_le_one hlevels least c, hreads.suffix⟩
  | succ k ih =>
    by_cases hn : n ≤ 1
    · exact ⟨c, exhausts_binary_of_le_one hn least c, hreads.suffix⟩
    · obtain ⟨n, rfl⟩ := Nat.exists_eq_add_of_le' (Nat.lt_of_not_le hn)
      obtain ⟨t, us, rfl, ht, hus⟩ := List.map_eq_cons_iff.1 hkinds
      obtain ⟨u, ts, rfl, hu, hts⟩ := List.map_eq_cons_iff.1 hus
      obtain ⟨hinside, rfl⟩ := hreads.of_cons
      obtain ⟨hinner, rfl⟩ := hinside.of_cons
      obtain ⟨d, hd, hahead⟩ := ih (by omega : n + 1 ≤ k + 1) (Nat.le_refl 110) hts hinner
      have hlink : (link (binary (n + 1)) (.exponent, 110)).Exhausts c.advance d :=
        .bind_behind rfl (hd.bind _)
      have hlinks := Exhausts.many (jointAt_exponent hu hleast) hlink
      exact ⟨d, .bind_behind (returns_factor_literal n ht) (hlinks.bind _), hahead⟩

/-- A single name is a path. -/
theorem returns_path_of_isName {c : Cursor} (hname : c.peek.kind.isName = true)
    (hdot : c.advance.peek.kind ≠ .punctuation .dot) : ∃ p, path.Returns c p c.advance [] :=
  ⟨_, returns_path_iff.2 ⟨hname, [], .stop (markAt_eq_none_iff.2 hdot), rfl⟩⟩

/-- One level is enough for a name. -/
theorem exists_returns_factor_identifier (n : Nat) {c : Cursor} {s : String}
    (hname : c.peek.kind = .identifier s) (hend : EndsOperand c.advance.peek) :
    ∃ e, (factor (n + 1)).Returns c e c.advance [] := by
  obtain ⟨p, hp⟩ := returns_path_of_isName (c := c) (by rw [hname]; rfl) hend.notDot
  have hoperand : PathExpressionReturns (binary n 1) c (.path p) c.advance [] :=
    .path hp hend.notOpen hend.notStep
  exact ⟨_, returns_factorRule_iff.2 (.path (by rw [hname]; rfl) (by simp [hname]) hoperand)⟩

/-- One level for each sign and one for the name; by induction on the signs. -/
theorem exists_returns_negations (k : Nat) {n : Nat} (hlevels : k + 1 ≤ n) {c d : Cursor}
    {ts : List Token} (hkinds : ts.map Token.kind = List.replicate k (.operator .logical .logicalNot))
    (hreads : c.Reads ts d) {s : String} (hname : d.peek.kind = .identifier s)
    (hend : EndsOperand d.advance.peek) : ∃ e, (factor n).Returns c e d.advance [] := by
  induction k generalizing n c ts with
  | zero =>
    obtain ⟨n, rfl⟩ := Nat.exists_eq_add_of_le' hlevels
    obtain rfl := List.map_eq_nil_iff.1 hkinds
    obtain rfl := hreads.eq_of_nil
    exact exists_returns_factor_identifier n hname hend
  | succ k ih =>
    obtain ⟨n, rfl⟩ := Nat.exists_eq_add_of_le' hlevels
    obtain ⟨t, ts, rfl, ht, hts⟩ := List.map_eq_cons_iff.1 hkinds
    obtain ⟨hinner, rfl⟩ := hreads.of_cons
    obtain ⟨e, he⟩ := ih (by omega : k + 1 ≤ n + (k + 1)) hts hinner
    exact ⟨_, returns_factorRule_iff.2 (.unary ht rfl he)⟩

/-- With no more levels left than the negations use up, reading stops in front of what they negate
    at the latest. -/
theorem exists_exhausts_negations (k : Nat) {n : Nat} (hlevels : n ≤ k) {c e : Cursor}
    {ts : List Token} (hkinds : ts.map Token.kind = List.replicate k (.operator .logical .logicalNot))
    (hreads : c.Reads ts e) : ∃ d, (factor n).Exhausts c d ∧ e.rest <:+ d.rest := by
  induction k generalizing n c ts with
  | zero =>
    obtain rfl := Nat.le_zero.1 hlevels
    exact ⟨c, exhausts_factor_zero c, hreads.suffix⟩
  | succ k ih =>
    cases n with
    | zero => exact ⟨c, exhausts_factor_zero c, hreads.suffix⟩
    | succ n =>
      obtain ⟨t, ts, rfl, ht, hts⟩ := List.map_eq_cons_iff.1 hkinds
      obtain ⟨hinner, rfl⟩ := hreads.of_cons
      obtain ⟨d, hd, hahead⟩ := ih (Nat.le_of_succ_le_succ hlevels) hts hinner
      have hnot : Operator.leads .logicalNot = true := rfl
      refine ⟨d, Exhausts.peek_bind ?_, hahead⟩
      simp only [ht, hnot, if_true]
      exact .bind_behind rfl (hd.bind _)

end GeoLang.Grammar
