import Depfile.Proofs.Token.Content
import Depfile.Proofs.Token.Names

/-!
# Writing tokens back

Every token that a text gives can be written with escapes, unless a line end came into it from
between double quotes. Written like that with spaces between them, the tokens of a text are read
as the same tokens again (`tokenize_escapedTokens`). A target is then a name like any other one:
its colon is escaped, and is still its last character. Only names that tokens can be are read back
like that, whether they stand alone (`tokenize_escape_eq_iff`) or one behind the other
(`tokenize_writeNames_eq_iff`).
-/

namespace Depfile.Token

variable {text : Text} {names : List Text} {c : Char}

/-- Names with escapes, one after the other with a space between each two. -/
def writeNames (names : List Text) : Text :=
  [' '].intercalate (names.map escape)

theorem writeNames_cons_cons (name next : Text) (others : List Text) :
    writeNames (name :: next :: others) = escape name ++ ' ' :: writeNames (next :: others) := by
  simp [writeNames, List.intercalate_cons_cons]

/-! ## Reading names that were written -/

/-- A name that is read back when it is written with escapes. -/
def IsReadable (name : Text) : Prop :=
  Text.isBlank name = false ∧ ∀ c ∈ name, CanEscape c

def IsReadable.escapedName {name : Text} (h : IsReadable name) : EscapedName where
  name := name
  ne_nil := by
    intro hnil
    subst hnil
    cases h.1
  can_escape := h.2

@[simp]
theorem IsReadable.name_escapedName {name : Text} (h : IsReadable name) :
    h.escapedName.name = name :=
  rfl

theorem colonFollows_writeNames {name : Text} (hname : IsReadable name) (others : List Text) :
    colonFollows (writeNames (name :: others)) = false := by
  cases others with
  | nil => simpa [writeNames] using hname.escapedName.colonFollows_text []
  | cons next others =>
    have hfirst := hname.escapedName.colonFollows_text (' ' :: writeNames (next :: others))
    simpa [writeNames_cons_cons] using hfirst

/-- The space behind a name gives it out. -/
theorem scan_writeNames_cons {name : Text} (hname : IsReadable name)
    (hnames : ∀ name ∈ names, IsReadable name) :
    scan [] .plain (writeNames (name :: names)) = name :: scan [] .plain (writeNames names) := by
  have hemit : emit name.reverse = [name] := emit_reverse hname.1
  cases names with
  | nil =>
    have hread := hname.escapedName.scan_text []
    simpa [writeNames, scan, hemit, emit_nil] using hread
  | cons next others =>
    have hread := hname.escapedName.scan_text (' ' :: writeNames (next :: others))
    have hspace : Text.isSpace ' ' = true := rfl
    -- The next name starts like no colon, so the space in front of it ends this one.
    have hgiven := scan_space name.reverse hspace
      (colonFollows_writeNames (hnames next (by simp)) others)
    calc
      scan [] .plain (writeNames (name :: next :: others)) =
          scan name.reverse .plain (' ' :: writeNames (next :: others)) := by
        simpa [writeNames_cons_cons] using hread
      _ = name :: scan [] .plain (writeNames (next :: others)) := by simpa [hemit] using hgiven

theorem tokenize_writeNames (h : ∀ name ∈ names, IsReadable name) :
    tokenize (writeNames names) = names := by
  induction names with
  | nil => rfl
  | cons name others ih =>
    have hothers : ∀ name ∈ others, IsReadable name := by
      intro other hother
      exact h other (by simp [hother])
    have hfirst := scan_writeNames_cons (h name (by simp)) hothers
    simpa [tokenize, hfirst] using ih hothers

/-! ## Tokens are such names -/

theorem isReadable_of_mem_tokenize
    (hquoted : ∀ c ∈ quotedText false text, c ≠ '\n' ∧ c ≠ '\r' ∧ c ≠ '\x0b' ∧ c ≠ '\x0c')
    {token : Text} (htoken : token ∈ tokenize text) : IsReadable token := by
  refine ⟨isBlank_of_mem_tokenize htoken, ?_⟩
  intro c hc
  rcases of_mem_tokenize htoken hc with hescape | hmem
  · exact hescape
  · have hquote : c ≠ '"' := by
      intro hquote
      exact quote_notMem_quotedText false text (hquote ▸ hmem)
    exact CanEscape.of_ne hquote (hquoted c hmem)

/-- The tokens of a text, written with escapes and spaces between them, are read again, if no
quotation in the text holds a line end or another whitespace character that has no escape. A text
without double quotes has no quotations. -/
theorem tokenize_escapedTokens (text : Text) :
    ((∀ c ∈ quotedText false text, c ≠ '\n' ∧ c ≠ '\r' ∧ c ≠ '\x0b' ∧ c ≠ '\x0c') →
        tokenize (writeNames (tokenize text)) = tokenize text) ∧
      ('"' ∉ text → tokenize (writeNames (tokenize text)) = tokenize text) := by
  have hspans : (∀ c ∈ quotedText false text,
        c ≠ '\n' ∧ c ≠ '\r' ∧ c ≠ '\x0b' ∧ c ≠ '\x0c') →
      tokenize (writeNames (tokenize text)) = tokenize text := by
    intro hquoted
    apply tokenize_writeNames
    intro token htoken
    exact isReadable_of_mem_tokenize hquoted htoken
  refine ⟨hspans, ?_⟩
  intro hquote
  exact hspans (by simp [quotedText_eq_nil hquote])

/-- An escaped blank, a lone dollar and a quotation with a blank; the last token is a target with a
backslash in front of an ordinary character. -/
theorem tokenize_mixedTokens :
    (∀ c ∈ quotedText false ['a', '\\', ' ', '$', ' ', '"', 'b', '\t', '"', '\\', 'd', ' ', ':'],
      c ≠ '\n' ∧ c ≠ '\r' ∧ c ≠ '\x0b' ∧ c ≠ '\x0c') ∧
    tokenize ['a', '\\', ' ', '$', ' ', '"', 'b', '\t', '"', '\\', 'd', ' ', ':'] =
      [['a', ' ', '$'], ['b', '\t', '\\', 'd', ':']] ∧
    tokenize (writeNames [['a', ' ', '$'], ['b', '\t', '\\', 'd', ':']]) =
      [['a', ' ', '$'], ['b', '\t', '\\', 'd', ':']] := by
  have hquoted : ∀ c ∈ quotedText false
      ['a', '\\', ' ', '$', ' ', '"', 'b', '\t', '"', '\\', 'd', ' ', ':'],
      c ≠ '\n' ∧ c ≠ '\r' ∧ c ≠ '\x0b' ∧ c ≠ '\x0c' := by simp [quotedText]
  have htokens : tokenize ['a', '\\', ' ', '$', ' ', '"', 'b', '\t', '"', '\\', 'd', ' ', ':'] =
      [['a', ' ', '$'], ['b', '\t', '\\', 'd', ':']] := rfl
  have hback := (tokenize_escapedTokens _).1 hquoted
  exact ⟨hquoted, htokens, htokens ▸ hback⟩

/-! ## Names that are read back -/

theorem quote_notMem_escape {name : Text} (hname : '"' ∉ name) : '"' ∉ escape name := by
  intro hmem
  rcases List.mem_flatMap.1 hmem with ⟨c, hc, hquote⟩
  have hne : '"' ≠ c := fun heq => hname (heq ▸ hc)
  rcases escapeChar_cases c with ⟨_, hwritten⟩ | ⟨_, hwritten⟩ | ⟨_, _, hwritten⟩ <;>
    simp [hwritten, hne] at hquote

theorem quote_notMem_writeNames (hnames : ∀ name ∈ names, '"' ∉ name) : '"' ∉ writeNames names := by
  induction names with
  | nil => simp [writeNames]
  | cons name others ih =>
    have hname : '"' ∉ escape name := quote_notMem_escape (hnames name (by simp))
    cases others with
    | nil => simpa [writeNames] using hname
    | cons next others =>
      have hothers := ih (fun other hother => hnames other (by simp [hother]))
      simp [writeNames_cons_cons, hname, hothers]

/-- No other names are read back: a token is not blank, and what has no escape comes into a token
only from between double quotes, which come into no token themselves. -/
theorem tokenize_writeNames_eq_iff :
    tokenize (writeNames names) = names ↔ ∀ name ∈ names, IsReadable name := by
  refine ⟨fun hread => ?_, tokenize_writeNames⟩
  have htoken : ∀ name ∈ names, name ∈ tokenize (writeNames names) := by
    intro name hname
    rwa [hread]
  have hquote : '"' ∉ writeNames names :=
    quote_notMem_writeNames (fun name hname => quote_notMem_of_mem_tokenize (htoken name hname))
  intro name hname
  exact isReadable_of_mem_tokenize (by simp [quotedText_eq_nil hquote]) (htoken name hname)

theorem isReadable_iff {name : Text} :
    IsReadable name ↔ (∃ c ∈ name, Text.isSpace c = false) ∧
      '\n' ∉ name ∧ '\r' ∉ name ∧ '\x0b' ∉ name ∧ '\x0c' ∉ name ∧ '"' ∉ name := by
  have hblank : Text.isBlank name = false ↔ ∃ c ∈ name, Text.isSpace c = false := by
    simp [Text.isBlank]
  have hescape : (∀ c ∈ name, CanEscape c) ↔
      '\n' ∉ name ∧ '\r' ∉ name ∧ '\x0b' ∉ name ∧ '\x0c' ∉ name ∧ '"' ∉ name := by
    constructor
    · intro h
      refine ⟨?_, ?_, ?_, ?_, fun hmem => (h '"' hmem).1 rfl⟩ <;>
      · intro hmem
        simpa using (h _ hmem).2 rfl
    · rintro ⟨hline, hreturn, htab, hform, hquote⟩ c hc
      have hne : ∀ d, d ∉ name → c ≠ d := fun d hd heq => hd (heq ▸ hc)
      exact CanEscape.of_ne (hne _ hquote) ⟨hne _ hline, hne _ hreturn, hne _ htab, hne _ hform⟩
  exact and_congr hblank hescape

/-- Escapes can write a name exactly if it is not blank and has neither a double quote nor whitespace
other than spaces and tabs. -/
theorem tokenize_escape_eq_iff (name : Text) :
    tokenize (escape name) = [name] ↔ (∃ c ∈ name, Text.isSpace c = false) ∧
      '\n' ∉ name ∧ '\r' ∉ name ∧ '\x0b' ∉ name ∧ '\x0c' ∉ name ∧ '"' ∉ name := by
  have hwrite : writeNames [name] = escape name := by simp [writeNames]
  rw [← hwrite, tokenize_writeNames_eq_iff, ← isReadable_iff]
  simp

end Depfile.Token
