import Mathlib.Data.List.TakeDrop
import VirtualFs.Glob.Match
import VirtualFs.Proofs.Glob.Library

namespace VirtualFs.Glob

theorem escape_append (s t : String) : escape (s ++ t) = escape s ++ escape t := by
  rw [← String.toList_inj]
  simp [escape]

theorem separator_mem_of_escape {s : String} (hmem : Path.separator ∈ (escape s).toList) :
    Path.separator ∈ s.toList := by
  have hone (c : Char) : Path.separator ∈ escapeChar c ↔ Path.separator = c := by
    unfold escapeChar
    split <;> simp [Path.separator]
  simpa [escape, hone] using hmem

/-- What a character of the text is as a token. -/
def escapedToken (c : Char) : Token :=
  if c = '?' ∨ c = '*' ∨ c = '[' ∨ c = ']' then .within [.single c] else .char c

theorem tokenize_escape (cs : List Char) {fuel : Nat}
    (hfuel : (cs.flatMap escapeChar).length ≤ fuel) (before : Option Char) (position : Nat)
    (tokens : List Token) :
    tokenize fuel before position tokens (cs.flatMap escapeChar) =
      .ok (tokens.reverse ++ cs.map escapedToken) := by
  induction cs generalizing fuel before position tokens with
  | nil => cases fuel <;> simp [tokenize]
  | cons c rest ih =>
    rw [List.flatMap_cons] at hfuel ⊢
    by_cases hspecial : c = '?' ∨ c = '*' ∨ c = '[' ∨ c = ']'
    · have hchars : escapeChar c = ['[', c, ']'] := if_pos hspecial
      have htoken : escapedToken c = .within [.single c] := if_pos hspecial
      have hbracket (tail : List Char) :
          bracket? (c :: ']' :: tail) = some ⟨[.single c], false, tail⟩ := by
        rcases hspecial with rfl | rfl | rfl | rfl
        all_goals simp [bracket?, classes, List.span_eq_takeWhile_dropWhile]
      rw [hchars] at hfuel ⊢
      obtain ⟨fuel, rfl⟩ : ∃ n, fuel = n + 1 := ⟨fuel - 1, by simp at hfuel; omega⟩
      simp only [List.cons_append, List.nil_append] at hfuel ⊢
      rw [tokenize, hbracket]
      simp only [List.length_cons, if_false, Char.reduceEq, if_true, Bool.false_eq_true]
        at hfuel ⊢
      rw [ih (by omega), List.map_cons, htoken, List.reverse_cons, List.append_assoc,
        List.singleton_append]
    · have hchars : escapeChar c = [c] := if_neg hspecial
      have htoken : escapedToken c = .char c := if_neg hspecial
      simp only [not_or] at hspecial
      rw [hchars] at hfuel ⊢
      obtain ⟨fuel, rfl⟩ : ∃ n, fuel = n + 1 := ⟨fuel - 1, by simp at hfuel; omega⟩
      simp only [List.cons_append, List.nil_append, List.length_cons] at hfuel ⊢
      rw [tokenize, if_neg hspecial.1, if_neg hspecial.2.1, if_neg hspecial.2.2.1, ih (by omega),
        List.map_cons, htoken, List.reverse_cons, List.append_assoc, List.singleton_append]

/-- The pattern of a text has a token for every character. -/
theorem parse_escape (s : String) : parse (escape s) = .ok (s.toList.map escapedToken) := by
  rw [parse, escape, String.toList_ofList, String.length_ofList]
  exact tokenize_escape s.toList le_rfl none 0 []

theorem fits_escapedToken (c d : Char) : fits false (escapedToken c) d = (d == c) := by
  unfold escapedToken
  split
  · unfold fits contains
    simp
  · rfl

theorem attempt_escaped (cs text : List Char) :
    attempt false (cs.map escapedToken) text = .matched ↔ text = cs := by
  induction cs generalizing text with
  | nil => cases text <;> simp [attempt]
  | cons c rest ih =>
    have hstep (d : Char) (tail : List Char) :
        attempt false (escapedToken c :: rest.map escapedToken) (d :: tail) =
          if fits false (escapedToken c) d then attempt false (rest.map escapedToken) tail
          else .failed := by
      unfold escapedToken
      split <;> rfl
    cases text with
    | nil =>
      have hend : attempt false (escapedToken c :: rest.map escapedToken) [] = .exhausted := by
        unfold escapedToken
        split <;> rfl
      simp [hend]
    | cons d tail =>
      rw [List.map_cons, hstep, fits_escapedToken]
      split
      · next hsame => simp_all
      · next hother => simp_all

/-- The pattern of a text matches nothing but the text. -/
theorem matchesText_escaped {s text : String} :
    matchesText false (s.toList.map escapedToken) text = true ↔ text = s := by
  rw [matchesText, beq_iff_eq, attempt_escaped, String.toList_inj]

/-- A bracket expression is read from the front. -/
theorem rest_subset_of_bracket {cs : List Char} {bracket : Bracket}
    (hbracket : bracket? cs = some bracket) : bracket.rest ⊆ cs := by
  have hspan {rest others tail : List Char} (h : rest.span (· != ']') = (others, ']' :: tail)) :
      tail ⊆ rest := by
    rw [List.span_eq_takeWhile_dropWhile] at h
    have hdrop : rest.dropWhile (· != ']') = ']' :: tail := congrArg Prod.snd h
    have hsub := List.dropWhile_subset (fun c => c != ']') (l := rest)
    rw [hdrop] at hsub
    exact (List.cons_subset.mp hsub).2
  unfold bracket? at hbracket
  split at hbracket
  · split at hbracket
    · next hrest =>
      cases hbracket
      exact fun c hc => List.mem_cons_of_mem _ (List.mem_cons_of_mem _ (hspan hrest hc))
    · cases hbracket
  · cases hbracket
  · split at hbracket
    · next hrest =>
      cases hbracket
      exact fun c hc => List.mem_cons_of_mem _ (hspan hrest hc)
    · cases hbracket
  · cases hbracket

/-- A pattern without wildcards is made of its characters. -/
theorem eq_map_char_of_literal? {tokens : List Token} {name : String}
    (hliteral : literal? tokens = some name) : tokens = name.toList.map .char := by
  have hchars (tokens : List Token) (cs : List Char) (h : tokens.mapM Token.char? = some cs) :
      tokens = cs.map .char := by
    induction tokens generalizing cs with
    | nil =>
      cases h
      rfl
    | cons token rest ih =>
      rw [List.mapM_cons, Option.bind_eq_bind, Option.bind_eq_some_iff] at h
      obtain ⟨c, hc, h⟩ := h
      rw [Option.bind_eq_bind, Option.bind_eq_some_iff] at h
      obtain ⟨tail, htail, h⟩ := h
      cases h
      rw [List.map_cons, ← ih tail htail]
      cases token <;> cases hc
      rfl
  rw [literal?, Option.map_eq_some_iff] at hliteral
  obtain ⟨cs, hcs, rfl⟩ := hliteral
  rw [hchars _ _ hcs, String.toList_ofList]

/-- What a character comes to as the first of those up to `last`: itself, or a wildcard for one
component. -/
inductive Reads (c : Char) : Token → Char → Prop
  | itself : Reads c (.char c) c
  | wildcard {token : Token} {last : Char} (level : token ≠ .anyComponents)
      (other : ∀ d, token ≠ .char d) (within : last ≠ Path.separator) : Reads c token last

theorem Reads.ne {c last : Char} {token : Token} (hreads : Reads c token last)
    (hc : Path.separator ≠ c) : last ≠ Path.separator ∧ token ≠ .anyComponents := by
  cases hreads with
  | itself => exact ⟨Ne.symm hc, by simp⟩
  | wildcard level _ within => exact ⟨within, level⟩

/-- How a pattern is read on from its first character. That character is a token, or opens one for
other characters, or it is the first of `**` where a component begins. -/
theorem tokenize_cons {c : Char} {fuel : Nat} {before : Option Char} {position : Nat}
    {tokens result : List Token} {rest : List Char}
    (hresult : tokenize (fuel + 1) before position tokens (c :: rest) = .ok result) :
    (∃ token last position back, tokenize fuel (some last) position (token :: tokens) back =
        .ok result ∧ back ⊆ rest ∧ Reads c token last) ∨
      (before = none ∨ before = some Path.separator) ∧ c = '*' ∧
        (rest = ['*'] ∧ result = (addComponents tokens).reverse ∨
          ∃ position back, rest = '*' :: Path.separator :: back ∧
            tokenize fuel (some Path.separator) position (addComponents tokens) back =
              .ok result) := by
  unfold tokenize at hresult
  split at hresult
  · next hany =>
    subst hany
    exact .inl ⟨_, _, _, _, hresult, List.Subset.refl _, .wildcard (by simp) (by simp) (by decide)⟩
  · split at hresult
    · next hstar =>
      subst hstar
      dsimp only at hresult
      split at hresult
      · cases hresult
      · split at hresult
        · next hrun =>
          obtain ⟨back, rfl⟩ : ∃ back, rest = '*' :: back := by
            cases rest with
            | nil => simp at hrun
            | cons d back =>
              refine ⟨back, ?_⟩
              by_contra hne
              have hd : d ≠ '*' := fun hd => hne (by rw [hd])
              simp [hd] at hrun
          split at hresult
          · next hbefore =>
            refine .inr ⟨hbefore, rfl, ?_⟩
            simp only [List.drop_succ_cons, List.drop_zero] at hresult
            split at hresult
            · cases hresult
              exact .inl ⟨rfl, rfl⟩
            · exact .inr ⟨_, _, rfl, hresult⟩
            · cases hresult
          · cases hresult
        · exact .inl ⟨_, _, _, _, hresult, List.Subset.refl _,
            .wildcard (by simp) (by simp) (by decide)⟩
    · split at hresult
      · split at hresult
        · cases hresult
        · next bracket hbracket =>
          refine .inl ⟨_, _, _, _, hresult, rest_subset_of_bracket hbracket, ?_⟩
          split
          all_goals exact .wildcard (by simp) (by simp) (by decide)
      · exact .inl ⟨_, _, _, _, hresult, List.Subset.refl _, .itself⟩

theorem suffix_addComponents (tokens : List Token) : tokens <:+ addComponents tokens := by
  unfold addComponents
  split
  · exact List.suffix_rfl
  · exact List.suffix_cons _ _

theorem char_mem_addComponents {d : Char} {tokens : List Token}
    (hd : Token.char d ∈ addComponents tokens) : Token.char d ∈ tokens := by
  unfold addComponents at hd
  split at hd
  · exact hd
  · simpa using hd

section Reading

variable {fuel : Nat} {before : Option Char} {position : Nat} {tokens result : List Token}
  {cs : List Char}

/-- The tokens read so far stay in front. -/
theorem reverse_prefix_of_tokenize
    (hresult : tokenize fuel before position tokens cs = .ok result) :
    tokens.reverse <+: result := by
  induction fuel generalizing before position tokens cs with
  | zero =>
    cases cs <;> cases hresult <;> exact List.prefix_rfl
  | succ fuel ih =>
    cases cs with
    | nil =>
      cases hresult
      exact List.prefix_rfl
    | cons c rest =>
      have hcomponents := List.reverse_prefix.mpr (suffix_addComponents tokens)
      obtain ⟨token, last, position, back, hrest, -, -⟩ |
        ⟨-, -, ⟨-, rfl⟩ | ⟨position, back, -, hrest⟩⟩ := tokenize_cons hresult
      · exact (List.reverse_prefix.mpr (List.suffix_cons token tokens)).trans (ih hrest)
      · exact hcomponents
      · exact hcomponents.trans (ih hrest)

/-- The characters that the tokens stand for are those of the pattern. -/
theorem char_mem_of_tokenize {d : Char}
    (hresult : tokenize fuel before position tokens cs = .ok result)
    (hd : Token.char d ∈ result) : Token.char d ∈ tokens ∨ d ∈ cs := by
  induction fuel generalizing before position tokens cs with
  | zero =>
    cases cs <;> cases hresult <;> exact .inl (List.mem_reverse.mp hd)
  | succ fuel ih =>
    cases cs with
    | nil =>
      cases hresult
      exact .inl (List.mem_reverse.mp hd)
    | cons c rest =>
      obtain ⟨token, last, position, back, hrest, hback, htoken⟩ |
        ⟨-, -, ⟨-, rfl⟩ | ⟨position, back, rfl, hrest⟩⟩ := tokenize_cons hresult
      · rcases ih hrest with hmem | hmem
        · rcases List.mem_cons.mp hmem with rfl | hmem
          · cases htoken with
            | itself => exact .inr List.mem_cons_self
            | wildcard _ other => exact absurd rfl (other d)
          · exact .inl hmem
        · exact .inr (List.mem_cons_of_mem _ (hback hmem))
      · exact .inl (char_mem_addComponents (List.mem_reverse.mp hd))
      · exact (ih hrest).imp char_mem_addComponents fun hmem => by simp [hmem]

/-- `**` is only read where a component begins. -/
theorem anyComponents_not_mem_of_tokenize (hnone : before ≠ none)
    (hbefore : before ≠ some Path.separator) (hcs : Path.separator ∉ cs)
    (htokens : Token.anyComponents ∉ tokens)
    (hresult : tokenize fuel before position tokens cs = .ok result) :
    Token.anyComponents ∉ result := by
  induction fuel generalizing before position tokens cs with
  | zero => cases cs <;> cases hresult <;> simpa using htokens
  | succ fuel ih =>
    cases cs with
    | nil =>
      cases hresult
      simpa using htokens
    | cons c rest =>
      obtain ⟨hc, hrest⟩ := not_or.mp (mt List.mem_cons.mpr hcs)
      obtain ⟨token, last, position, back, hresult, hback, htoken⟩ | ⟨hbegins, -⟩ :=
        tokenize_cons hresult
      · obtain ⟨hlast, htoken⟩ := htoken.ne hc
        refine ih (by simp) (by simpa using hlast) (fun hmem => hrest (hback hmem)) ?_ hresult
        rw [List.mem_cons, not_or]
        exact ⟨Ne.symm htoken, htokens⟩
      · exact absurd hbegins (not_or.mpr ⟨hnone, hbefore⟩)

end Reading

section Components

variable {component name : String} {part : List Token}

/-- Only `**` is read as a component for any number of directories. -/
theorem eq_recursive_of_parse (hparse : parse component = .ok part)
    (hseparator : Path.separator ∉ component.toList) (hmem : Token.anyComponents ∈ part) :
    component = "**" := by
  rw [← String.toList_inj]
  rw [parse, ← String.length_toList] at hparse
  generalize component.toList = cs at hparse hseparator
  cases cs with
  | nil =>
    cases hparse
    cases hmem
  | cons c rest =>
    obtain ⟨hc, hrest⟩ := not_or.mp (mt List.mem_cons.mpr hseparator)
    obtain ⟨token, last, position, back, hresult, hback, htoken⟩ |
      ⟨-, rfl, ⟨rfl, -⟩ | ⟨position, back, rfl, -⟩⟩ := tokenize_cons hparse
    · obtain ⟨hlast, htoken⟩ := htoken.ne hc
      exact absurd hmem (anyComponents_not_mem_of_tokenize (by simp) (by simpa using hlast)
        (fun hmem => hrest (hback hmem)) (by simpa using Ne.symm htoken) hresult)
    · rfl
    · simp at hrest

/-- Where a pattern starts with a character for itself, that is its first one. -/
theorem head?_of_parse {c : Char} (hparse : parse component = .ok part)
    (hhead : part.head? = some (.char c)) : component.toList.head? = some c := by
  rw [parse, ← String.length_toList] at hparse
  generalize component.toList = cs at hparse
  cases cs with
  | nil =>
    cases hparse
    cases hhead
  | cons d rest =>
    obtain ⟨token, last, position, back, hresult, -, htoken⟩ |
      ⟨-, -, ⟨-, rfl⟩ | ⟨position, back, -, hresult⟩⟩ := tokenize_cons hparse
    · obtain ⟨tail, rfl⟩ := reverse_prefix_of_tokenize hresult
      cases hhead
      cases htoken with
      | itself => rfl
      | wildcard _ other => exact absurd rfl (other c)
    · cases hhead
    · obtain ⟨tail, rfl⟩ := reverse_prefix_of_tokenize hresult
      cases hhead

/-- What a component without wildcards stands for is made of its characters and matches it. -/
theorem of_literal? (hparse : parse component = .ok part) (hliteral : literal? part = some name) :
    (∀ c ∈ name.toList, c ∈ component.toList) ∧ matchesText false part name = true := by
  obtain rfl := eq_map_char_of_literal? hliteral
  refine ⟨fun c hc => ?_, ?_⟩
  · have hmem : Token.char c ∈ name.toList.map Token.char := List.mem_map.mpr ⟨c, hc, rfl⟩
    exact (char_mem_of_tokenize hparse hmem).resolve_left (List.not_mem_nil)
  · have hstep (c : Char) (cs : List Char) :
        attempt false (.char c :: cs.map .char) (c :: cs) = attempt false (cs.map .char) cs :=
      if_pos (beq_self_eq_true c)
    rw [matchesText, beq_iff_eq]
    induction name.toList with
    | nil => rfl
    | cons c rest ih => rw [List.map_cons, hstep, ih]

end Components

/-- Nothing is left out by `**`. -/
theorem matchesText_recursive (text : String) : matchesText false [.anyComponents] text = true := by
  have hlonger (cs : List Char) : longerRuns false true (attempt false []) cs = .matched := by
    induction cs with
    | nil => rfl
    | cons c rest ih =>
      unfold longerRuns
      cases rest with
      | nil => simp [longerRuns, attempt]
      | cons d rest => simp [ih, attempt]
  rw [matchesText, beq_iff_eq, attempt, anyRun]
  cases text.toList with
  | nil => rfl
  | cons c rest => exact hlonger (c :: rest)

/-- The patterns of the shell are as documented. -/
theorem shell_lawful : Library.shell.Lawful where
  escape_append := escape_append
  escape_separator := by decide
  separator_mem _ := separator_mem_of_escape
  compile_escape s :=
    ⟨fun literal text => matchesText literal (s.toList.map escapedToken) text, by
      simp only [Library.shell, parse_escape], fun _ => matchesText_escaped⟩
  compile_recursive := ⟨_, rfl, matchesText_recursive⟩

end VirtualFs.Glob
