import GeoLang.Proofs.Layout.Construct

namespace GeoLang

/-- No token is empty, and none begins before the one in front of it ends. -/
structure InSourceOrder (ts : List Token) : Prop where
  length : ∀ t ∈ ts, 0 < t.span.length
  before : ts.Pairwise fun a b => a.span.Before b.span

/-- The span is that of some of the tokens that stand next to one another. -/
def Span.Among (s : Span) (ts : List Token) : Prop := ∃ us, us <:+: ts ∧ s.Bounds us

variable {ts us vs : List Token}

namespace InSourceOrder

/-- Tokens that are left out do not disturb the order. -/
theorem of_sublist (hordered : InSourceOrder ts) (hsublist : us.Sublist ts) : InSourceOrder us where
  length t ht := hordered.length t (hsublist.subset ht)
  before := hordered.before.sublist hsublist

theorem left (hordered : InSourceOrder (us ++ vs)) : InSourceOrder us :=
  hordered.of_sublist (List.sublist_append_left us vs)

theorem right (hordered : InSourceOrder (us ++ vs)) : InSourceOrder vs :=
  hordered.of_sublist (List.sublist_append_right us vs)

/-- No token in the order of the text is empty. -/
theorem start_lt_stop (hordered : InSourceOrder ts) {t : Token} (ht : t ∈ ts) :
    t.span.start.offset < t.span.stop.offset :=
  Nat.lt_of_sub_pos (hordered.length t ht)

/-- The first token begins nowhere behind any other. -/
theorem start_head_le (hordered : InSourceOrder ts) {first t : Token} (hfirst : first ∈ ts.head?)
    (ht : t ∈ ts) : first.span.start.offset ≤ t.span.start.offset := by
  cases ts with
  | nil => cases ht
  | cons u us =>
    obtain rfl : u = first := by simpa using hfirst
    obtain rfl | ht := List.mem_cons.1 ht
    · exact Nat.le_refl _
    · exact Nat.le_of_lt ((List.pairwise_cons.1 hordered.before).1 t ht).1

/-- The first token ends nowhere behind any other. -/
theorem stop_head_le (hordered : InSourceOrder ts) {first t : Token} (hfirst : first ∈ ts.head?)
    (ht : t ∈ ts) : first.span.stop.offset ≤ t.span.stop.offset := by
  cases ts with
  | nil => cases ht
  | cons u us =>
    obtain rfl : u = first := by simpa using hfirst
    obtain rfl | hus := List.mem_cons.1 ht
    · exact Nat.le_refl _
    · have hbefore := (List.pairwise_cons.1 hordered.before).1 t hus
      exact Nat.le_trans hbefore.2 (Nat.le_of_lt (hordered.start_lt_stop ht))

/-- The last token ends nowhere in front of any other. -/
theorem stop_le_getLast (hordered : InSourceOrder ts) {last t : Token} (hlast : last ∈ ts.getLast?)
    (ht : t ∈ ts) : t.span.stop.offset ≤ last.span.stop.offset := by
  obtain ⟨front, rfl⟩ := List.getLast?_eq_some_iff.1 hlast
  obtain ht | ht := List.mem_append.1 ht
  · have hbefore := (List.pairwise_append.1 hordered.before).2.2 t ht last List.mem_cons_self
    have hlast := hordered.start_lt_stop (List.mem_append_right front List.mem_cons_self)
    exact Nat.le_trans hbefore.2 (Nat.le_of_lt hlast)
  · obtain rfl := List.mem_singleton.1 ht
    exact Nat.le_refl _

end InSourceOrder

namespace Span

variable {a b s : Span}

/-- Nothing bounds no tokens. -/
theorem Bounds.ne_nil (hbounds : s.Bounds ts) : ts ≠ [] := by
  rintro rfl
  obtain ⟨first, hfirst, -⟩ := hbounds
  cases hfirst

/-- A token has its own bounds. -/
theorem bounds_singleton (t : Token) : t.span.Bounds [t] := ⟨t, rfl, t, rfl, rfl⟩

/-- What bounds tokens is among them. -/
theorem Bounds.among (hbounds : s.Bounds ts) : s.Among ts := ⟨ts, List.infix_rfl, hbounds⟩

theorem Among.append_left (hamong : s.Among ts) (us : List Token) : s.Among (us ++ ts) := by
  obtain ⟨vs, hvs, hbounds⟩ := hamong
  exact ⟨vs, hvs.trans (List.suffix_append us ts).isInfix, hbounds⟩

theorem Among.append_right (hamong : s.Among ts) (us : List Token) : s.Among (ts ++ us) := by
  obtain ⟨vs, hvs, hbounds⟩ := hamong
  exact ⟨vs, hvs.trans (List.prefix_append ts us).isInfix, hbounds⟩

/-- The span of a construct begins where one of its tokens begins, and ends where one ends. -/
theorem Among.exists_tokens (hamong : s.Among ts) :
    ∃ first ∈ ts, ∃ last ∈ ts, s = ⟨first.span.start, last.span.stop⟩ := by
  obtain ⟨us, hus, first, hfirst, last, hlast, hs⟩ := hamong
  exact ⟨first, hus.subset (List.mem_of_mem_head? hfirst), last,
    hus.subset (List.mem_of_getLast? hlast), hs⟩

/-- What stands among the tokens of a construct lies inside of its span. -/
theorem Among.inside (hamong : a.Among ts) (hordered : InSourceOrder ts) (hbounds : b.Bounds ts) :
    a.Inside b := by
  obtain ⟨first, hfirst, last, hlast, rfl⟩ := hamong.exists_tokens
  obtain ⟨first', hfirst', last', hlast', rfl⟩ := hbounds
  exact ⟨hordered.start_head_le hfirst' hfirst, hordered.stop_le_getLast hlast' hlast⟩

/-- Of two constructs the one whose tokens come first ends before the other begins. -/
theorem Among.before (ha : a.Among us) (hb : b.Among vs) (hordered : InSourceOrder (us ++ vs)) :
    a.Before b := by
  obtain ⟨first, hfirst, last, hlast, rfl⟩ := ha.exists_tokens
  obtain ⟨first', hfirst', last', hlast', rfl⟩ := hb.exists_tokens
  obtain ⟨-, -, hbefore⟩ := List.pairwise_append.1 hordered.before
  exact ⟨(hbefore first hfirst first' hfirst').1, (hbefore last hlast first' hfirst').2⟩

/-- The least span around a construct and one behind it bounds the tokens from the one to the
    other. -/
theorem Bounds.merge (ha : a.Bounds us) (hb : b.Bounds vs) {ws : List Token}
    (hordered : InSourceOrder (us ++ (ws ++ vs))) : (a.merge b).Bounds (us ++ (ws ++ vs)) := by
  have hbefore : a.Before b := ha.among.before (hb.among.append_left ws) hordered
  have hstop : a.stop.offset < b.stop.offset := by
    obtain ⟨first, hfirst, last, hlast, rfl⟩ := hb
    have hmem := List.mem_of_getLast? hlast
    have hforward := hordered.right.right.start_lt_stop hmem
    have hstart := hordered.right.right.start_head_le hfirst hmem
    exact Nat.lt_of_le_of_lt (Nat.le_trans hbefore.2 hstart) hforward
  obtain ⟨first, hfirst, _, _, rfl⟩ := ha
  obtain ⟨_, _, last, hlast, rfl⟩ := hb
  refine ⟨first, ?_, last, ?_, ?_⟩
  · rw [List.head?_append, hfirst, Option.some_or]
    rfl
  · rw [List.getLast?_append, List.getLast?_append, hlast, Option.some_or, Option.some_or]
    rfl
  · unfold Before at hbefore
    rw [Span.merge, if_pos hstop, if_neg (by omega)]

end Span

end GeoLang
