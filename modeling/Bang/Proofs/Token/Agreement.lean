import Bang.Proofs.Token.Lossless

/-! The two dialects lex alike. Whatever the text is, both fail at the same place or find the same tokens, position by
position, and only the word `func` is of another kind. That holds of the word on its own: where it goes on into a
longer word, of whatever script, neither dialect sees it. -/

namespace Bang.Token

namespace Rule

variable {d : Dialect} {rule : Rule} {text rest : List Char}

theorem Takes.eq_ofName (h : Takes d rule text rest) (hname : IsName text) : rule = ofName d text := by
  have hlead : lead rule = identifier := by
    have hrule := leadOf_of_accepts h.mem_tokenRules h.accepts
    have hhead : text.head?.map leadOf = some identifier := leadOf_head hname.1 fun _ => leadOf_of_isNameStart
    exact Option.some.inj (hrule.symm.trans hhead)
  cases h with
  | name _ _ => rfl
  | operator _ _ => cases hlead
  | integer _ _ _ => cases hlead
  | real _ _ _ => cases hlead
  | string _ => cases hlead
  | symbol _ => cases hlead

end Rule

variable {d : Dialect} {code : String} {tokens tokens' : List Token} {t u : Token}

theorem kind_of_func (h : tokenize d code = .ok tokens) (ht : t ∈ tokens) (hfunc : t.text = "func") :
    t.kind = (Rule.ofName d "func".toList).kind := by
  obtain ⟨rule, text, rest, hfirst, hsilent, hkind, htext⟩ := exists_taken_of_tokenize h ht
  have hword : text = "func".toList := by
    rw [htext] at hfunc
    rw [← hfunc, String.toList_ofList]
  have hname : Rule.IsName text := by
    have hparts : "func".toList.all Rule.isNamePart = true := by decide
    rw [hword]
    exact ⟨by decide, List.all_eq_true.mp hparts⟩
  rw [hkind, (Rule.takes_of_first? hfirst hsilent).eq_ofName hname, hword]

structure Counterpart (t u : Token) : Prop where
  text : t.text = u.text
  line : t.line = u.line
  kind : if t.text = "func" then t.kind = .identifier ∧ u.kind = .keyword else t.kind = u.kind

theorem Recast.counterpart (h : Recast t u) (ht : t.text = "func" → t.kind = .identifier)
    (hu : u.text = "func" → u.kind = .keyword) : Counterpart t u := by
  have hsame : t.text = u.text ∧ t.line = u.line := by
    rcases h with rfl | ⟨rfl, _, _⟩ <;> exact ⟨rfl, rfl⟩
  refine ⟨hsame.1, hsame.2, ?_⟩
  split
  · rename_i hfunc
    exact ⟨ht hfunc, hu (hsame.1 ▸ hfunc)⟩
  · rename_i hother
    rcases h with rfl | ⟨rfl, _, hfunc⟩
    · rfl
    · exact absurd hfunc hother

theorem minified_eq_of_counterparts (h : List.Forall₂ Counterpart tokens tokens') :
    minified tokens = minified tokens' := by
  have htexts : tokens.map text = tokens'.map text := by
    induction h with
    | nil => rfl
    | cons hhead _ ih => rw [List.map_cons, List.map_cons, hhead.text, ih]
  rw [minified, minified, htexts]

/-- Every text is lexed alike in both dialects. Either no rule applies at one and the same place,
and so the reports are the same; or both find the same minified text, and tokens that differ in the
kind of `func` alone. -/
theorem tokenize_agrees (code : String) :
    (∃ stuck, tokenize .basic code = .error stuck ∧ tokenize .extended code = .error stuck) ∨
      ∃ tokens tokens', tokenize .basic code = .ok tokens ∧ tokenize .extended code = .ok tokens' ∧
        minified tokens = minified tokens' ∧ List.Forall₂ Counterpart tokens tokens' := by
  rcases tokenize_dialects code with hstuck | ⟨tokens, tokens', hbasic, hextended, hrecast⟩
  · exact .inl hstuck
  · have hname : (Rule.ofName .basic "func".toList).kind = .identifier := by decide
    have hkeyword : (Rule.ofName .extended "func".toList).kind = .keyword := by decide
    have hcounterparts : List.Forall₂ Counterpart tokens tokens' := by
      rw [List.forall₂_iff_get] at hrecast ⊢
      refine ⟨hrecast.1, fun i hi hi' => (hrecast.2 i hi hi').counterpart ?_ ?_⟩
      · exact fun hfunc => (kind_of_func hbasic (List.get_mem tokens ⟨i, hi⟩) hfunc).trans hname
      · exact fun hfunc => (kind_of_func hextended (List.get_mem tokens' ⟨i, hi'⟩) hfunc).trans hkeyword
    exact .inr ⟨tokens, tokens', hbasic, hextended, minified_eq_of_counterparts hcounterparts, hcounterparts⟩

end Bang.Token
