import Mathlib.Data.List.Forall2
import ReactiveTemplate.Proofs.Expr.Grouping
import ReactiveTemplate.Proofs.Expr.Recognition
import ReactiveTemplate.Proofs.Token.Joining

/-!
# Expressions with commas between them

The expressions of a source are read independently of each other. Sources can be put together with a
comma between them, and a source can be cut at its commas, as far as these are outside of all
brackets: there are no others between the expressions.
-/

namespace ReactiveTemplate

open Spanned

/-! ## Commas outside of brackets -/

/-- Whether a token is an opening bracket. -/
def Token.opens (token : Token) : Bool :=
  ["(", "[", r"{"].any token.isPunctuation

/-- Whether a token is a closing bracket. -/
def Token.closes (token : Token) : Bool :=
  [")", "]", r"}"].any token.isPunctuation

/-- The commas outside of all brackets, where `depth` brackets are open in front of the tokens. -/
def outerCommas (depth : Nat) : List Token → List Token
  | [] => []
  | token :: tokens =>
      if token.opens then outerCommas (depth + 1) tokens
      else if token.closes then outerCommas (depth - 1) tokens
      else if depth = 0 ∧ token.isPunctuation "," then token :: outerCommas depth tokens
      else outerCommas depth tokens

namespace Token

variable {token : Token}

theorem opens_of_matches {close : String} (h : token.Matches close) : token.opens := by
  cases h with
  | round h | square h | curly h => simp [opens, h]

theorem closes_of_matches {opener : Token} {close : String} (h : opener.Matches close)
    (hclose : token.isPunctuation close) : ¬token.opens ∧ token.closes := by
  rw [isPunctuation_iff] at hclose
  obtain ⟨hkind, htext⟩ := hclose
  cases h <;> simp [opens, closes, isPunctuation, hkind, htext]

theorem not_bracket_of_comma (h : token.isPunctuation ",") : ¬token.opens ∧ ¬token.closes := by
  rw [isPunctuation_iff] at h
  simp [opens, closes, isPunctuation, h]

theorem IsPlain.not_bracket (h : token.IsPlain) :
    ¬token.opens ∧ ¬token.closes ∧ ¬token.isPunctuation "," := by
  by_cases hkind : token.kind = .punctuation
  · have htext := h hkind
    simp only [List.mem_cons, List.not_mem_nil, or_false] at htext
    rcases htext with htext | htext | htext <;>
      simp [opens, closes, isPunctuation, htext]
  · simp [opens, closes, isPunctuation, hkind]

end Token

/-- Grouped tokens add no comma that is outside of all brackets, unless their own commas are. -/
theorem Grouped.outerCommas_append {commas : Bool} {w : List Token} (h : Grouped commas w)
    {depth : Nat} (hdepth : commas → depth ≠ 0) (rest : List Token) :
    outerCommas depth (w ++ rest) = outerCommas depth rest := by
  induction h generalizing depth rest with
  | nil => rfl
  | plain htoken _ ih =>
      obtain ⟨hopen, hclose, hcomma⟩ := htoken.not_bracket
      rw [List.cons_append, outerCommas, if_neg hopen, if_neg hclose,
        if_neg fun h => hcomma h.2, ih hdepth]
  | comma htoken _ ih =>
      obtain ⟨hopen, hclose⟩ := Token.not_bracket_of_comma htoken
      rw [List.cons_append, outerCommas, if_neg hopen, if_neg hclose,
        if_neg fun h => hdepth rfl h.1, ih hdepth]
  | group hopen _ hclose _ ihinner ih =>
      obtain ⟨hnone, hclose⟩ := Token.closes_of_matches hopen hclose
      rw [List.cons_append, List.append_assoc, List.cons_append, outerCommas,
        if_pos (Token.opens_of_matches hopen), ihinner (fun _ => Nat.succ_ne_zero depth),
        outerCommas, if_neg hnone, if_pos hclose, Nat.succ_eq_add_one, Nat.add_sub_cancel,
        ih hdepth]

/-- A single expression has no comma outside all brackets. Those of its lists stand inside some. -/
theorem Grouped.outerCommas_eq_nil {w : List Token} (h : Grouped false w) :
    outerCommas 0 w = [] := by
  have hnone : outerCommas 0 (w ++ []) = outerCommas 0 [] := h.outerCommas_append (by simp) []
  rwa [List.append_nil] at hnone

/-- The first comma outside all brackets is the one behind the first expression, and the others are
those behind it. -/
theorem Grouped.outerCommas_comma {w : List Token} (h : Grouped false w) {comma : Token}
    (hcomma : comma.isPunctuation ",") (rest : List Token) :
    outerCommas 0 (w ++ comma :: rest) = comma :: outerCommas 0 rest := by
  obtain ⟨hopen, hclose⟩ := Token.not_bracket_of_comma hcomma
  rw [h.outerCommas_append (by simp), outerCommas, if_neg hopen, if_neg hclose,
    if_pos ⟨rfl, hcomma⟩]

/-! ## Sources put together -/

theorem DerivesList.append {ws ws' : List Token} {es es' : List Expr} {d d' : Nat}
    (h : DerivesList ws es d) {comma : Token} (hcomma : comma.isPunctuation ",")
    (h' : DerivesList ws' es' d') : DerivesList (ws ++ comma :: ws') (es ++ es') (max d d') := by
  induction h with
  | one h => exact .more h hcomma h'
  | more h hcomma' _ ih =>
      rw [List.append_assoc, List.cons_append, Nat.max_assoc]
      exact .more h hcomma' ih

/-- Tokens that are read as expressions are a list of these, within the limits of nesting. -/
theorem exists_derivesList {tokens : List Token} {es : List Expr}
    (h : Expr.ofTokens tokens = .ok es) (hne : es ≠ []) :
    ∃ d, DerivesList tokens es d ∧ d ≤ nestingLimit ∧ ∀ e ∈ es, e.height ≤ nestingLimit := by
  obtain ⟨d, hderives⟩ := DerivesSource.of_ofTokens h
  obtain ⟨-, hdepth, hheight⟩ := hderives.bounds_of_ofTokens h
  cases hderives with
  | empty => contradiction
  | list hlist => exact ⟨d, hlist, hdepth, hheight⟩

/-- Tokens of two sources with a comma between them are read as the expressions of both. Neither
source may be empty, for the comma stands between expressions. -/
theorem ofTokens_append {tokens tokens' : List Token} {es es' : List Expr}
    (h : Expr.ofTokens tokens = .ok es) (h' : Expr.ofTokens tokens' = .ok es') (hne : es ≠ [])
    (hne' : es' ≠ []) {comma : Token} (hcomma : comma.isPunctuation ",") :
    Expr.ofTokens (tokens ++ comma :: tokens') = .ok (es ++ es') := by
  obtain ⟨d, hlist, hdepth, hheight⟩ := exists_derivesList h hne
  obtain ⟨d', hlist', hdepth', hheight'⟩ := exists_derivesList h' hne'
  refine (DerivesSource.list (hlist.append hcomma hlist')).ofTokens_eq_ok ?_ ?_
  · exact Nat.max_le.mpr ⟨hdepth, hdepth'⟩
  · exact List.forall_mem_append.mpr ⟨hheight, hheight'⟩

/-- Spans that are moved by the same number of bytes can be joined before or after, which is all
that parsing does with spans. -/
theorem join_shift (n : Nat) (a b : Span) :
    (a.join b).shift n = (a.shift n).join (b.shift n) := by
  simp [Span.join, Span.shift, Nat.add_min_add_right, Nat.add_max_add_right]

/-- Expressions with a comma and more expressions behind them are read one behind the other. -/
theorem parse_append_comma {a b : String} {as bs : List Expr} (ha : parse a = .ok as)
    (hb : parse b = .ok bs) (has : as ≠ []) (hbs : bs ≠ []) :
    parse (a ++ "," ++ b) = .ok (as ++ mapSpans (·.shift (a.utf8ByteSize + 1)) bs) := by
  obtain ⟨tokens, htokens, hread⟩ := parse_eq_ok_iff.mp ha
  obtain ⟨tokens', htokens', hread'⟩ := parse_eq_ok_iff.mp hb
  have hwidth : byteWidth (a.toList ++ [',']) = a.utf8ByteSize + 1 := by
    rw [byteWidth_append, byteWidth_toList]
    rfl
  have hbehind : Tokenizes (a.toList ++ [',']) b.toList
      (mapSpans (·.shift (a.utf8ByteSize + 1)) tokens') :=
    tokenizes_iff.mpr ⟨tokens', by rwa [String.ofList_toList], by rw [hwidth]⟩
  have hcomma : readLexeme ',' b.toList = .ok (⟨.punctuation, [',']⟩, b.toList) := rfl
  have hall := (tokenize_eq_ok_iff.mp htokens).append (.lexeme (by decide) hcomma hbehind)
    fun token _ c hc => by
      cases hc
      exact token.lexeme.endsAt_comma
  have hmoved : Expr.ofTokens (mapSpans (·.shift (a.utf8ByteSize + 1)) tokens') =
      .ok (mapSpans (·.shift (a.utf8ByteSize + 1)) bs) := by
    rw [ofTokens_mapSpans (join_shift _), hread']
    rfl
  have hsource : (a ++ "," ++ b).toList = a.toList ++ ',' :: b.toList := by simp
  have hne : mapSpans (·.shift (a.utf8ByteSize + 1)) bs ≠ [] := by
    simpa [mapSpans_eq_map] using hbs
  rw [← hsource] at hall
  exact parse_eq_ok_iff.mpr
    ⟨_, tokenize_eq_ok_iff.mpr hall, ofTokens_append hread hmoved has hne rfl⟩

/-! ## Sources cut at their commas -/

/-- A stretch of a source, behind the text `before`. -/
structure Stretch where
  before : List Char
  text : List Char

/-- A text behind `before`, cut at the commas that are at these spans. -/
inductive Cut : List Char → List Char → List Span → List Stretch → Prop where
  | whole {before text : List Char} : Cut before text [] [⟨before, text⟩]
  | comma {before text rest : List Char} {spans : List Span} {stretches : List Stretch}
      (h : Cut (before ++ text ++ [',']) rest spans stretches) :
      Cut before (text ++ [','] ++ rest) (.behind (before ++ text) [','] :: spans)
        (⟨before, text⟩ :: stretches)

/-- A stretch is a source of its own for one expression, which is `e` but for its place. -/
def Stretch.Reads (stretch : Stretch) (e : Expr) : Prop :=
  ∃ e', parse (String.ofList stretch.text) = .ok [e'] ∧
    mapSpans (·.shift (byteWidth stretch.before)) e' = e

/-- The tokens of one expression in a source are those of the text they cover, as a source of its
own and with spans moved. Hence that text is read as the expression. -/
theorem reads_of_derives {before text : List Char} {w : List Token} {e : Expr} {d : Nat}
    (htokens : Tokenizes before text w) (h : Derives .part w e d) (hd : d ≤ nestingLimit)
    (he : e.height ≤ nestingLimit) : Stretch.Reads ⟨before, text⟩ e := by
  obtain ⟨tokens, hsource, rfl⟩ := tokenizes_iff.mp htokens
  have hread : Expr.ofTokens (mapSpans (·.shift (byteWidth before)) tokens) = .ok [e] :=
    (DerivesSource.list (.one h)).ofTokens_eq_ok hd (by simpa using he)
  rw [ofTokens_mapSpans (join_shift _)] at hread
  cases halone : Expr.ofTokens tokens with
  | error refusal =>
      rw [halone] at hread
      contradiction
  | ok es =>
      rw [halone, mapSpans_ok, Except.ok.injEq, mapSpans_eq_map, List.map_eq_singleton_iff] at hread
      obtain ⟨e', rfl, rfl⟩ := hread
      exact ⟨e', parse_eq_ok_iff.mpr ⟨tokens, hsource, halone⟩, rfl⟩

/-- The outer commas of a list are those between its items. -/
theorem DerivesList.cut {ws : List Token} {es : List Expr} {d : Nat} (h : DerivesList ws es d)
    (hd : d ≤ nestingLimit) (hes : ∀ e ∈ es, e.height ≤ nestingLimit) {before cs : List Char}
    (htokens : Tokenizes before cs ws) :
    (outerCommas 0 ws).length + 1 = es.length ∧
    ∃ stretches, Cut before cs ((outerCommas 0 ws).map Token.span) stretches ∧
      List.Forall₂ Stretch.Reads stretches es := by
  induction h generalizing before cs with
  | one h =>
      rw [h.grouped.outerCommas_eq_nil]
      refine ⟨rfl, _, .whole, .cons ?_ .nil⟩
      exact reads_of_derives htokens h hd (hes _ List.mem_cons_self)
  | @more w ws comma e es d d' h hcomma _ ih =>
      rw [Nat.max_le] at hd
      rw [List.forall_mem_cons] at hes
      obtain ⟨front, back, rfl, hfront, hspan, hback⟩ := htokens.split
      have htext : comma.text.toList = [','] := by
        rw [(Token.isPunctuation_iff.mp hcomma).2]
        rfl
      rw [htext] at hspan hback ⊢
      obtain ⟨hlength, stretches, hcut, hreads⟩ := ih hd.2 hes.2 hback
      rw [h.grouped.outerCommas_comma hcomma, List.map_cons, hspan]
      refine ⟨congrArg (· + 1) hlength, _, .comma hcut, .cons ?_ hreads⟩
      exact reads_of_derives hfront h hd.1 hes.1

/-- Sources that are put together with a comma are read one behind the other. What is read of a
source has one outer comma less than there are expressions, and each expression is what is read of
the stretch of source between two of these commas. -/
theorem parse_commas :
    (∀ a b as bs, parse a = .ok as → parse b = .ok bs → as ≠ [] → bs ≠ [] →
      parse (a ++ "," ++ b) = .ok (as ++ mapSpans (·.shift (a.utf8ByteSize + 1)) bs)) ∧
    ∀ source es, parse source = .ok es → es ≠ [] →
      ∃ tokens stretches, tokenize source = .ok tokens ∧
        (outerCommas 0 tokens).length + 1 = es.length ∧
        Cut [] source.toList ((outerCommas 0 tokens).map Token.span) stretches ∧
        List.Forall₂ Stretch.Reads stretches es := by
  refine ⟨fun a b as bs => parse_append_comma, fun source es h hne => ?_⟩
  obtain ⟨tokens, htokens, hread⟩ := parse_eq_ok_iff.mp h
  obtain ⟨d, hlist, hdepth, hheight⟩ := exists_derivesList hread hne
  obtain ⟨hlength, stretches, hcut, hreads⟩ :=
    hlist.cut hdepth hheight (tokenize_eq_ok_iff.mp htokens)
  exact ⟨tokens, stretches, htokens, hlength, hcut, hreads⟩

/-- Commas in calls, in arrays and in strings are no outer ones. -/
theorem parse_commas_in_brackets :
    ∃ as bs tokens stretches, parse "f(a, b)" = .ok as ∧ parse "é | g, [',', c]" = .ok bs ∧
      parse ("f(a, b)" ++ "," ++ "é | g, [',', c]") = .ok (as ++ mapSpans (·.shift 8) bs) ∧
      tokenize ("f(a, b)" ++ "," ++ "é | g, [',', c]") = .ok tokens ∧
      (outerCommas 0 tokens).length + 1 = 3 ∧
      Cut [] ("f(a, b)" ++ "," ++ "é | g, [',', c]").toList
        ((outerCommas 0 tokens).map Token.span) stretches ∧
      List.Forall₂ Stretch.Reads stretches (as ++ mapSpans (·.shift 8) bs) := by
  obtain ⟨as, ha, has⟩ : ∃ as, parse "f(a, b)" = .ok as ∧ as.length = 1 :=
    exists_eq_ok_of_toOption (by decide +kernel)
  obtain ⟨bs, hb, hbs⟩ : ∃ bs, parse "é | g, [',', c]" = .ok bs ∧ bs.length = 2 :=
    exists_eq_ok_of_toOption (by decide +kernel)
  have hall := parse_commas.1 _ _ _ _ ha hb (List.ne_nil_of_length_eq_add_one has)
    (List.ne_nil_of_length_eq_add_one hbs)
  have hlength : (as ++ mapSpans (·.shift 8) bs).length = 3 := by
    rw [List.length_append, mapSpans_eq_map, List.length_map, has, hbs]
  obtain ⟨tokens, stretches, htokens, hcommas, hcut, hreads⟩ :=
    parse_commas.2 _ _ hall (List.ne_nil_of_length_eq_add_one hlength)
  exact ⟨as, bs, tokens, stretches, ha, hb, hall, htokens, hcommas.trans hlength, hcut, hreads⟩

end ReactiveTemplate
