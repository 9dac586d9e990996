import Depfile.Proofs.Token.Reading

/-!
# What tokens are made of

The tokens of a text are what is left of it when whitespace and the characters with a meaning of
their own have done their work. Nothing else is lost, nothing is doubled or moved
(`tokenize_conserves`), and line ends, which have no escape, come into a token only from between
double quotes (`Reading.of_mem`). All of this holds for every text, however malformed.
-/

namespace Depfile.Token

variable {pending text rest token : Text} {mode : Mode} {tokens : List Text} {c : Char}

/-! ## Quoted text -/

/-- The characters between double quotes. Each double quote opens a quotation or closes the open
one, and a quotation that is not closed runs to the end. -/
def quotedText (isOpen : Bool) : Text → Text
  | [] => []
  | c :: rest =>
    if c = '"' then
      quotedText (!isOpen) rest
    else if isOpen then
      c :: quotedText isOpen rest
    else
      quotedText isOpen rest

theorem quote_notMem_quotedText (isOpen : Bool) (text : Text) : '"' ∉ quotedText isOpen text := by
  induction text generalizing isOpen with
  | nil => simp [quotedText]
  | cons c rest ih =>
    by_cases hquote : c = '"'
    · simpa [quotedText, hquote] using ih (!isOpen)
    · cases isOpen with
      | false => simpa [quotedText, hquote] using ih false
      | true => simpa [quotedText, hquote, Ne.symm hquote] using ih true

/-- Text without double quotes does not open a quotation. -/
theorem quotedText_append {front : Text} (hfront : '"' ∉ front) (rest : Text) :
    quotedText false (front ++ rest) = quotedText false rest := by
  induction front with
  | nil => rfl
  | cons c front ih =>
    have hboth : '"' ≠ c ∧ '"' ∉ front := by simpa using hfront
    simpa [quotedText, Ne.symm hboth.1] using ih hboth.2

theorem quotedText_eq_nil (h : '"' ∉ text) : quotedText false text = [] := by
  simpa [quotedText] using quotedText_append h []

/-! ## Collected characters -/

theorem mem_emit : token ∈ emit pending ↔ Text.isBlank pending = false ∧ token = pending.reverse := by
  by_cases hblank : Text.isBlank pending = true <;> simp [emit, hblank]

theorem emit_colon (pending : Text) : emit (':' :: pending) = [pending.reverse ++ [':']] := by
  simpa using emit_colon_reverse pending.reverse

namespace Collects

variable {source : Text}

theorem sublist (h : Collects source c) : [c].Sublist source := by
  cases h <;> simp

theorem quote_notMem (h : Collects source c) : '"' ∉ source := by
  cases h with
  | ordinary hc =>
    have hne : c ≠ '"' := by
      intro hquote
      simp [isOrdinary, hquote] at hc
    simpa using Ne.symm hne
  | escaped hc =>
    have hne : c ≠ '"' := by
      intro hquote
      simp [isProtected, hquote] at hc
    simpa using Ne.symm hne
  | backslash => decide
  | dollar => decide
  | dollars => decide
  | driveColon => decide

/-- Outside of quotes only characters are collected that can be escaped. -/
theorem canEscape (h : Collects source c) : CanEscape c := by
  refine ⟨?_, ?_⟩
  · intro hquote
    subst hquote
    exact h.quote_notMem (h.sublist.subset (by simp))
  · intro hspace
    -- The only whitespace that is collected is protected by a backslash.
    cases h with
    | ordinary hc => simp [isOrdinary, hspace] at hc
    | escaped hc =>
      have hne := ne_of_isSpace hspace
      have hsharp : c ≠ '#' := by
        intro hsharp
        subst hsharp
        cases hspace
      simpa [isProtected, hne, hsharp] using hc
    | backslash => cases hspace
    | dollar => cases hspace
    | dollars => cases hspace
    | driveColon => cases hspace

/-- Of the characters that are read as one, the marks in front of it are not ordinary. -/
theorem filter_isOrdinary (h : Collects source c) :
    source.filter isOrdinary = [c].filter isOrdinary := by
  cases h with
  | ordinary hc => rfl
  | escaped hc =>
    have hmark : isOrdinary '\\' = false := by decide
    simp [List.filter_cons, hmark]
  | backslash => rfl
  | dollar => rfl
  | dollars => decide
  | driveColon => rfl

end Collects

theorem not_isOrdinary_of_isSpace (h : Text.isSpace c = true) : isOrdinary c = false := by
  simp [isOrdinary, h]

theorem filter_isOrdinary_of_isSpace {run : Text} (hrun : ∀ c ∈ run, Text.isSpace c = true) :
    run.filter isOrdinary = [] := by
  apply List.filter_eq_nil_iff.2
  intro c hc
  simp [not_isOrdinary_of_isSpace (hrun c hc)]

theorem filter_isOrdinary_of_isBlank (h : Text.isBlank pending = true) :
    pending.reverse.filter isOrdinary = [] := by
  apply filter_isOrdinary_of_isSpace
  simpa [Text.isBlank] using h

/-- A blank token is dropped, but there is nothing ordinary in it. -/
theorem filter_flatten_emit (pending : Text) :
    (emit pending).flatten.filter isOrdinary = pending.reverse.filter isOrdinary := by
  by_cases hblank : Text.isBlank pending = true
  · simp [emit, hblank, filter_isOrdinary_of_isBlank hblank]
  · simp [emit, hblank]

theorem sublist_flatten_emit (pending : Text) : (emit pending).flatten.Sublist pending.reverse := by
  by_cases hblank : Text.isBlank pending = true <;> simp [emit, hblank]

/-! ## Readings -/

namespace Reading

theorem isBlank_eq_false (h : Reading pending mode text tokens) (htoken : token ∈ tokens) :
    Text.isBlank token = false := by
  have hemit : ∀ {pending : Text}, token ∈ emit pending → Text.isBlank token = false := by
    intro pending hmem
    rcases mem_emit.1 hmem with ⟨hblank, rfl⟩
    simpa [isBlank_reverse] using hblank
  induction h with
  | finish pending mode => exact hemit htoken
  | collect _ _ ih => exact ih htoken
  | continuation _ ih => exact ih htoken
  | space _ _ ih => exact (List.mem_append.1 htoken).elim hemit ih
  | strayColon _ _ ih => exact ih htoken
  | target _ _ _ ih => exact (List.mem_append.1 htoken).elim hemit ih
  | openQuote _ ih => exact ih htoken
  | literal _ _ ih => exact ih htoken
  | closeQuote _ ih => exact ih htoken

/-- A character of a token has an escape, was there before, or stands between double quotes. -/
theorem of_mem (h : Reading pending mode text tokens) (htoken : token ∈ tokens) (hc : c ∈ token) :
    CanEscape c ∨ c ∈ pending ∨ c ∈ quotedText (mode = .quoted) text := by
  have hemit : ∀ {pending : Text}, token ∈ emit pending → c ∈ pending := by
    intro pending hmem
    rcases mem_emit.1 hmem with ⟨_, rfl⟩
    simpa using hc
  -- Along a reading only two steps add a character to what has been collected: one of them does it
  -- outside of quotes and the other one inside.
  induction h with
  | finish pending mode => exact Or.inr (Or.inl (hemit htoken))
  | @collect pending source rest d tokens hcollects _ ih =>
    rcases ih htoken with hescape | hmem | hquoted
    · exact Or.inl hescape
    · rcases List.mem_cons.1 hmem with rfl | hmem
      · exact Or.inl hcollects.canEscape
      · exact Or.inr (Or.inl hmem)
    · simp only [reduceCtorEq, decide_false] at hquoted ⊢
      exact Or.inr (Or.inr (by simpa [quotedText_append hcollects.quote_notMem] using hquoted))
  | continuation _ ih => simpa [quotedText] using ih htoken
  | @space pending rest d tokens hspace _ ih =>
    rcases List.mem_append.1 htoken with htoken | htoken
    · exact Or.inr (Or.inl (hemit htoken))
    · have hquote : d ≠ '"' := by
        intro hquote
        subst hquote
        cases hspace
      rcases ih htoken with hescape | hmem | hquoted
      · exact Or.inl hescape
      · cases hmem
      · exact Or.inr (Or.inr (by simpa [quotedText, hquote] using hquoted))
  | strayColon _ _ ih =>
    rcases ih htoken with hescape | hmem | hquoted
    · exact Or.inl hescape
    · cases hmem
    · exact Or.inr (Or.inr (by simpa [quotedText] using hquoted))
  | @target pending run rest tokens _ hrun _ ih =>
    rcases List.mem_append.1 htoken with htoken | htoken
    · rcases List.mem_cons.1 (hemit htoken) with rfl | hmem
      · exact Or.inl Collects.driveColon.canEscape
      · exact Or.inr (Or.inl hmem)
    · have hquote : '"' ∉ run := by
        intro hquote
        cases hrun '"' hquote
      rcases ih htoken with hescape | hmem | hquoted
      · exact Or.inl hescape
      · cases hmem
      · refine Or.inr (Or.inr ?_)
        simpa [quotedText_append hquote, quotedText] using hquoted
  | openQuote _ ih => simpa [quotedText] using ih htoken
  | @literal pending rest d tokens hquote _ ih =>
    rcases ih htoken with hescape | hmem | hquoted
    · exact Or.inl hescape
    · rcases List.mem_cons.1 hmem with rfl | hmem
      · exact Or.inr (Or.inr (by simp [quotedText, hquote]))
      · exact Or.inr (Or.inl hmem)
    · refine Or.inr (Or.inr ?_)
      simp only [decide_true] at hquoted ⊢
      simp [quotedText, hquote, hquoted]
  | closeQuote _ ih => simpa [quotedText] using ih htoken

/-- The ordinary characters of the tokens are those of the text. -/
theorem filter_isOrdinary (h : Reading pending mode text tokens) :
    tokens.flatten.filter isOrdinary = (pending.reverse ++ text).filter isOrdinary := by
  have hcolon : isOrdinary ':' = false := by decide
  have hquote : isOrdinary '"' = false := by decide
  have hbackslash : isOrdinary '\\' = false := by decide
  -- What a step leaves out are whitespace and the marks above.
  induction h with
  | finish pending mode => simpa only [List.append_nil] using filter_flatten_emit pending
  | @collect pending source rest c tokens hcollects _ ih =>
    have hsource : (source ++ rest).filter isOrdinary = ([c] ++ rest).filter isOrdinary := by
      simp only [List.filter_append, hcollects.filter_isOrdinary]
    simpa [hsource] using ih
  | continuation _ ih => simpa [hbackslash] using ih
  | @space pending rest c tokens hc _ ih =>
    have hrest : tokens.flatten.filter isOrdinary = rest.filter isOrdinary := by
      simpa only [List.reverse_nil, List.nil_append] using ih
    simp only [List.flatten_append, List.filter_append, filter_flatten_emit, hrest]
    simp [not_isOrdinary_of_isSpace hc]
  | strayColon hblank _ ih => simpa [hcolon, filter_isOrdinary_of_isBlank hblank] using ih
  | @target pending run rest tokens _ hrun _ ih =>
    have hrest : tokens.flatten.filter isOrdinary = rest.filter isOrdinary := by
      simpa only [List.reverse_nil, List.nil_append] using ih
    simp only [emit_colon, List.flatten_append, List.filter_append, hrest]
    simp [hcolon, filter_isOrdinary_of_isSpace hrun]
  | openQuote _ ih => simpa [hquote] using ih
  | literal _ _ ih => simpa using ih
  | closeQuote _ ih => simpa [hquote] using ih

/-- The tokens one after the other are the text with some characters left out. -/
theorem flatten_sublist (h : Reading pending mode text tokens) :
    tokens.flatten.Sublist (pending.reverse ++ text) := by
  induction h with
  | finish pending mode => simpa using sublist_flatten_emit pending
  | @collect pending source rest c tokens hcollects _ ih =>
    have hsource : ([c] ++ rest).Sublist (source ++ rest) := hcollects.sublist.append_right rest
    exact ih.trans (by simpa using hsource.append_left pending.reverse)
  | continuation _ ih => exact ih.trans (by simp)
  | @space pending rest c tokens _ _ ih =>
    have hrest : tokens.flatten.Sublist (c :: rest) := by simpa using ih.cons c
    simpa using (sublist_flatten_emit pending).append hrest
  | @strayColon pending rest tokens _ _ ih =>
    have hrest : tokens.flatten.Sublist (':' :: rest) := by simpa using ih.cons ':'
    exact hrest.trans (List.sublist_append_right _ _)
  | @target pending run rest tokens _ _ _ ih =>
    have hrest : (':' :: tokens.flatten).Sublist (run ++ ':' :: rest) := by
      have hcolon : (':' :: tokens.flatten).Sublist (':' :: rest) := by simpa using ih
      exact hcolon.trans (List.sublist_append_right run _)
    simpa [emit_colon] using hrest.append_left pending.reverse
  | openQuote _ ih => exact ih.trans (by simp)
  | literal _ _ ih => simpa using ih
  | closeQuote _ ih => exact ih.trans (by simp)

end Reading

/-! ## Tokens of a text -/

theorem isBlank_of_mem_tokenize (htoken : token ∈ tokenize text) : Text.isBlank token = false :=
  (reading_tokenize text).isBlank_eq_false htoken

theorem of_mem_tokenize (htoken : token ∈ tokenize text) (hc : c ∈ token) :
    CanEscape c ∨ c ∈ quotedText false text := by
  simpa using (reading_tokenize text).of_mem htoken hc

theorem quote_notMem_of_mem_tokenize (htoken : token ∈ tokenize text) : '"' ∉ token := by
  intro hquote
  rcases of_mem_tokenize htoken hquote with hescape | hquoted
  · exact hescape.1 rfl
  · exact quote_notMem_quotedText false text hquoted

/-- Reading a text loses none of its ordinary characters, and doubles and moves nothing. No token is
blank or holds a double quote, and without quotations none holds a line end or another whitespace
character that has no escape. -/
theorem tokenize_conserves (text : Text) :
    (tokenize text).flatten.filter isOrdinary = text.filter isOrdinary ∧
      (tokenize text).flatten.Sublist text ∧
      (∀ token ∈ tokenize text, Text.isBlank token = false ∧ '"' ∉ token) ∧
      ('"' ∉ text → ∀ token ∈ tokenize text,
        '\n' ∉ token ∧ '\r' ∉ token ∧ '\x0b' ∉ token ∧ '\x0c' ∉ token) := by
  refine ⟨?_, ?_, ?_, ?_⟩
  · simpa using (reading_tokenize text).filter_isOrdinary
  · simpa using (reading_tokenize text).flatten_sublist
  · intro token htoken
    exact ⟨isBlank_of_mem_tokenize htoken, quote_notMem_of_mem_tokenize htoken⟩
  · intro hquote token htoken
    have hescape : ∀ c ∈ token, CanEscape c := by
      intro c hc
      simpa [quotedText_eq_nil hquote] using of_mem_tokenize htoken hc
    refine ⟨?_, ?_, ?_, ?_⟩ <;>
    · intro hmem
      simpa using (hescape _ hmem).2 rfl

/-- A stray colon, an escaped blank in a token and one that is dropped, doubled dollars, a colon
behind whitespace and a backslash at the end. -/
theorem tokenize_malformed_conserves :
    tokenize [':', 'a', '\\', ' ', '$', '$', ' ', ':', '\\', '\t', '\n', 'b', '\\'] =
        [['a', ' ', '$', ':'], ['b', '\\']] ∧
      '"' ∉ [':', 'a', '\\', ' ', '$', '$', ' ', ':', '\\', '\t', '\n', 'b', '\\'] ∧
      ∀ token ∈ [['a', ' ', '$', ':'], ['b', '\\']],
        '\n' ∉ token ∧ '\r' ∉ token ∧ '\x0b' ∉ token ∧ '\x0c' ∉ token := by
  have htokens : tokenize [':', 'a', '\\', ' ', '$', '$', ' ', ':', '\\', '\t', '\n', 'b', '\\'] =
      [['a', ' ', '$', ':'], ['b', '\\']] := rfl
  have hquote : '"' ∉ [':', 'a', '\\', ' ', '$', '$', ' ', ':', '\\', '\t', '\n', 'b', '\\'] := by
    decide
  refine ⟨htokens, hquote, ?_⟩
  intro token htoken
  exact (tokenize_conserves _).2.2.2 hquote token (htokens ▸ htoken)

end Depfile.Token
