import ReactiveTemplate.Proofs.Expr.RoundTrip

/-!
# Printed text and the limit of nesting

The parentheses that printing adds count as nested parts, like those of any source. So the printed
text of a source may be refused although the source itself is not, and which texts are refused can
be told from the trees.
-/

namespace ReactiveTemplate

open ReactiveTemplate.Expr

/-- The printed text of a source opens as many parts at once as its trees say. It is read again if
so many may be open; otherwise it is refused for being nested too deeply. -/
theorem parse_printAll_iff {source : String} {es : List Expr} (h : parse source = .ok es) :
    (∃ lexemes, Lexes (printAll es).toList lexemes ∧
      DerivesSource (lexemes.map Lexeme.bare) (bare es) (deepest es)) ∧
    ((∃ es', parse (printAll es) = .ok es') ↔ deepest es ≤ nestingLimit) ∧
    (deepest es ≤ nestingLimit → ∃ es', parse (printAll es) = .ok es' ∧ bare es' = bare es) ∧
    (nestingLimit < deepest es →
      ∃ span, parse (printAll es) = .error ⟨.nestingTooDeep, span⟩) := by
  obtain ⟨lexemes, hlexes, hderives⟩ := derives_printAll (prints_of_parse h)
  have hheights : ∀ e ∈ bare es, e.height ≤ nestingLimit := by
    obtain ⟨lexemes, -, hread⟩ := exists_lexes_of_parse h
    obtain ⟨d, hsource⟩ := DerivesSource.of_ofTokens hread
    exact (hsource.bounds_of_ofTokens hread).2.2
  have hfits (hdepth : deepest es ≤ nestingLimit) :
      ∃ es', parse (printAll es) = .ok es' ∧ bare es' = bare es :=
    parse_of_lexes hlexes (hderives.ofTokens_eq_ok hdepth hheights)
  have hdeep (hdepth : nestingLimit < deepest es) :
      ∃ span, parse (printAll es) = .error ⟨.nestingTooDeep, span⟩ := by
    obtain ⟨place, hrefuse⟩ := hderives.gives.2 fun hall => Nat.not_le_of_lt hdepth hall.1
    exact parse_error_of_lexes hlexes hrefuse
  refine ⟨⟨lexemes, hlexes, hderives⟩, ⟨?_, ?_⟩, hfits, hdeep⟩
  · rintro ⟨es', hes'⟩
    refine Nat.not_lt.mp fun hdepth => ?_
    obtain ⟨span, herror⟩ := hdeep hdepth
    rw [hes'] at herror
    contradiction
  · intro hdepth
    obtain ⟨es', hes', -⟩ := hfits hdepth
    exact ⟨es', hes'⟩

/-- Thirty-two signs in front of a name: in print, as many parts are open as may be. -/
theorem parse_printAll_iff_signs :
    ∃ es, parse "--------------------------------a" = .ok es ∧ deepest es = 64 ∧
      ∃ es', parse (printAll es) = .ok es' ∧ bare es' = bare es := by
  obtain ⟨es, hes, hdepth⟩ :
      ∃ es, parse "--------------------------------a" = .ok es ∧ deepest es = 64 :=
    exists_eq_ok_of_toOption (by decide +kernel)
  exact ⟨es, hes, hdepth, (parse_printAll_iff hes).2.2.1 (Nat.le_of_eq hdepth)⟩

/-- One sign more, and the source is read but its printed text is not. -/
theorem not_printed_readable :
    ∃ es, parse "---------------------------------a" = .ok es ∧
      parse (printAll es) = .error ⟨.nestingTooDeep, ⟨64, 65⟩⟩ ∧
      ¬∃ es', parse (printAll es) = .ok es' := by
  obtain ⟨es, hes, hprint⟩ :
      ∃ es, parse "---------------------------------a" = .ok es ∧
        printAll es = String.join (List.replicate 32 "-(") ++ "-a" ++
          String.join (List.replicate 32 ")") :=
    exists_eq_ok_of_toOption (by decide +kernel)
  obtain ⟨e, he, hvalue⟩ :
      ∃ e, parse (String.join (List.replicate 32 "-(") ++ "-a" ++
          String.join (List.replicate 32 ")")) = .error e ∧
        (e.fault, e.span) = (.nestingTooDeep, ⟨64, 65⟩) :=
    exists_eq_error_of_failure? (by decide +kernel)
  obtain ⟨fault, span⟩ := e
  cases hvalue
  refine ⟨es, hes, ?_, ?_⟩
  · rw [hprint]
    exact he
  · rw [hprint, he]
    rintro ⟨es', hes'⟩
    contradiction

end ReactiveTemplate
