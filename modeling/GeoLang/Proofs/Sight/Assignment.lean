import GeoLang.Proofs.Reader.Invariant
import GeoLang.Proofs.Sight.Program

namespace GeoLang

open Grammar

namespace Reader

section

variable (tokens : List Token) (n : Nat) (s : Reader)

/-- Reading a path from `s`, with `n` levels left. -/
def target : Run Path := (Plan.path : FullPlan n path).run tokens s

/-- Reading an expression behind the path and the token that the path stops at. -/
def assigned : Run Expr :=
  (Plan.expression n : FullPlan n (expression n)).run tokens
    ((target tokens n s).reader.advance tokens)

/-- Reading from `s` by each of the rules that may read an assignment there. -/
def assigning : List (Run Simple) :=
  let value : FullPlan n (expression n) := Plan.expression n
  [(Plan.assignment value).run tokens s, (Plan.simple value).run tokens s,
    (Plan.update value).run tokens s]

/-- The path that is read from `s` is `p`, and it stops at the assignment operator `op`. -/
structure Assigns (p : Path) (op : Operator) : Prop where
  path : (target tokens n s).result = .ok p
  operator : ((target tokens n s).reader.peek tokens).kind = .operator .assignment op

/-- What looking ahead for an assignment says about a reader: it says yes if and only if the rule
    for paths succeeds and stops at an assignment operator. The rules that read assignments then
    read this one, and they fail only where its value does. -/
structure Foresees : Prop where
  agrees : assignsPath (s.ahead tokens) = true ↔ ∃ p op, Assigns tokens n s p op
  settled : ∀ p op, Assigns tokens n s p op → ∀ x ∈ assigning tokens n s,
    x.result = (assigned tokens n s).result.map fun v => .assignment p op v (p.span.merge v.span)

end

variable {tokens : List Token} {n : Nat} {s : Reader} {p : Path} {op : Operator}

/-- Reading the target of an assignment from a sound reader follows the rule for paths. -/
theorem Sound.follows_target (hs : s.Sound tokens) (hdepth : s.depth + n = maxNesting) :
    (target tokens n s).Follows tokens s (path (s.cursor tokens)) :=
  Plan.path.run_follows hs hdepth

/-- A path in front of an assignment operator is what the grammar reads there. -/
theorem Sound.assigns_iff (hs : s.Sound tokens) (hdepth : s.depth + n = maxNesting) :
    Assigns tokens n s p op ↔ ∃ d es, path.Returns (s.cursor tokens) p d es ∧
      (target tokens n s).reader.cursor tokens = d ∧ d.peek.kind.assignment? = some op := by
  have htarget := hs.follows_target hdepth
  constructor
  · rintro ⟨hresult, hkind⟩
    have hpath := Rule.returns_of_result (htarget.result.symm.trans hresult)
    refine ⟨_, _, hpath, htarget.cursor, ?_⟩
    rw [← htarget.cursor, peek_cursor]
    exact TokenKind.assignment?_eq_some_iff.2 hkind
  · rintro ⟨d, es, hpath, rfl, hop⟩
    rw [hpath] at htarget
    rw [peek_cursor] at hop
    exact ⟨htarget.result, TokenKind.assignment?_eq_some_iff.1 hop⟩

/-- The look ahead says exactly when a path can be read up to an operator of assignment. -/
theorem Sound.assignsPath_iff (hs : s.Sound tokens) (hdepth : s.depth + n = maxNesting) :
    assignsPath (s.ahead tokens) = true ↔ ∃ p op, Assigns tokens n s p op := by
  rw [← assignsPath_cursor, Grammar.assignsPath_iff (kind_eof_cursor s)]
  constructor
  · rintro ⟨p, d, es, op, hpath, hop⟩
    have hcursor := (hs.follows_target hdepth).cursor
    rw [hpath] at hcursor
    exact ⟨p, op, (hs.assigns_iff hdepth).2 ⟨d, es, hpath, hcursor, hop⟩⟩
  · rintro ⟨p, op, hassigns⟩
    obtain ⟨d, es, hpath, -, hop⟩ := (hs.assigns_iff hdepth).1 hassigns
    exact ⟨p, d, es, op, hpath, hop⟩

/-- The value is read behind the operator. -/
theorem Sound.result_assigned (hs : s.Sound tokens) (hdepth : s.depth + n = maxNesting) :
    (assigned tokens n s).result =
      (expression n ((target tokens n s).reader.cursor tokens).advance).result := by
  have htarget := hs.follows_target hdepth
  have hmoves := htarget.sound.moves_advance
  have hlevel : ((target tokens n s).reader.advance tokens).depth + n = maxNesting := by
    rw [hmoves.depth, htarget.depth, hdepth]
  have hvalue := (Plan.expression n).run_follows hmoves.sound hlevel
  rw [htarget.sound.cursor_advance] at hvalue
  exact hvalue.result

private theorem Sound.result_of_assigns (hs : s.Sound tokens) (hdepth : s.depth + n = maxNesting)
    (hassigns : Assigns tokens n s p op) : ∀ x ∈ assigning tokens n s, x.result =
      (assigned tokens n s).result.map fun v => .assignment p op v (p.span.merge v.span) := by
  have hahead : assignsPath (s.cursor tokens).rest = true := by
    rw [assignsPath_cursor, hs.assignsPath_iff hdepth]
    exact ⟨p, op, hassigns⟩
  obtain ⟨d, es, hpath, hcursor, hop⟩ := (hs.assigns_iff hdepth).1 hassigns
  obtain ⟨p', d', op', hpath', -⟩ := exists_returns_path hahead
  obtain ⟨rfl, rfl, rfl⟩ := hpath.unique hpath'
  have hassignment := assignment_apply hpath hop (expression n)
  rw [hs.result_assigned hdepth, hcursor]
  refine List.forall_mem_cons.2 ⟨?_, List.forall_mem_cons.2 ⟨?_, List.forall_mem_singleton.2 ?_⟩⟩
  · rw [((Plan.assignment (.expression n)).run_follows hs hdepth).result, hassignment]
  · rw [((Plan.simple (.expression n)).run_follows hs hdepth).result, simple_apply hahead,
      hassignment]
  · rw [((Plan.update (.expression n)).run_follows hs hdepth).result, update_apply hahead,
      hassignment]

private theorem Sound.foresees (hs : s.Sound tokens) (hdepth : s.depth + n = maxNesting) :
    Foresees tokens n s where
  agrees := hs.assignsPath_iff hdepth
  settled _ _ hassigns := hs.result_of_assigns hdepth hassigns

end Reader

/-- No rule ever reports that it misses an assignment operator. -/
theorem Parsed.not_missesAssignment {tokens : List Token} {e : ParseError}
    (he : e ∈ (Parsed.ofTokens tokens).errors) : ¬ e.MissesAssignment := by
  have hsame : List.Forall₂ Token.Reclassed tokens tokens :=
    List.forall₂_same.2 fun t _ => .same t
  obtain ⟨-, herrors⟩ := Parsed.told_of_reclassed hsame
  exact (List.forall₂_same.1 herrors e he).foreseen

/-- Looking ahead for an assignment and reading its path agree wherever a reader may stand in a list
    of tokens. Behind the look ahead neither the path nor the operator of an assignment can be
    missed, and a missing operator is never reported. -/
theorem Parsed.foreseen_assignments (tokens : List Token) :
    (∀ (s : Reader) (n : Nat), s.Sound tokens → s.depth + n = maxNesting → Reader.Foresees tokens n s) ∧
      ∀ e ∈ (Parsed.ofTokens tokens).errors, ¬ e.MissesAssignment :=
  ⟨fun _ _ hs hdepth => hs.foresees hdepth, fun _ he => Parsed.not_missesAssignment he⟩

open Reader in
/-- A path whose last name is a keyword, with comments in front of its dot and of the operator. -/
theorem Parsed.foreseen_assignments_commented :
    let tokens : List Token :=
      [⟨.identifier "a", "a", .none⟩, ⟨.comment "one", "one", .none⟩, ⟨.punctuation .dot, ".", .none⟩,
        ⟨.keyword .printKw, "print", .none⟩, ⟨.comment "two", "two", .none⟩,
        ⟨.operator .assignment .assign, "=", .none⟩, ⟨.literal (.integer 1), "1", .none⟩,
        ⟨.punctuation .semicolon, ";", .none⟩]
    let s := initial tokens
    s.Sound tokens ∧ s.depth + maxNesting = maxNesting ∧ assignsPath (s.ahead tokens) = true ∧
      Foresees tokens maxNesting s ∧
        ∀ e ∈ (Parsed.ofTokens tokens).errors, ¬ e.MissesAssignment := by
  intro tokens s
  have hsound : s.Sound tokens := sound_initial
  have hdepth : s.depth + maxNesting = maxNesting := Nat.zero_add _
  have hassigns : assignsPath (s.ahead tokens) = true := by decide +kernel
  obtain ⟨hforesees, herrors⟩ := Parsed.foreseen_assignments tokens
  exact ⟨hsound, hdepth, hassigns, hforesees s maxNesting hsound hdepth, herrors⟩

end GeoLang
