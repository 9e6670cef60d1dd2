import MultiplexingRpc.Interface
/-!
# Parser — the interface compiler's front end (`parser.c`)

A hand-written automaton reads one lexeme at a time, with one character of push-back and a buffer of 100 bytes; a
recursive descent over the lexemes builds the syntax tree.  Every error ends the program in `die`.  The file is the list
of its characters; the classes of characters are those of the "C" locale.

The loops over parameters and methods end because every lexeme but the end of the file takes a character.
-/
namespace Mrpc

/-- `enum lexeme_type`. -/
inductive LexemeType where
  | start
  | stop
  | id
  | openBrace
  | closeBrace
  deriving DecidableEq, Repr

/-- `enum lexer_state`. -/
inductive LexerState where
  | start
  | inComment
  | inId
  deriving DecidableEq, Repr

/-- `enum params_type`. -/
inductive ParamsType where
  | request
  | response
  deriving DecidableEq, Repr

/-- How the compiler ends when it does not return. -/
inductive Exit where
  | die (message : String)
  | assertion
  deriving DecidableEq, Repr

/-- `MAX_LEXEME_SIZE`, with the terminating zero. -/
def maxLexemeSize : Nat := 100

/-- `struct parser_data`; `file` is what was not read yet. -/
structure ParserCtx where
  lexemeType : LexemeType
  lexeme : List Char
  line : Nat
  pos : Nat
  filename : String
  file : List Char
  deriving DecidableEq, Repr

/-- `lexeme_type_to_string`. -/
def lexemeTypeToString : LexemeType → String
  | .start => "begin of file"
  | .stop => "end of file"
  | .openBrace => "open curly brace \"\x7b\""
  | .closeBrace => "close curly brace \"\x7b\""
  | .id => "identifier like [a-z][a-z0-9_]*"

/-! ## Characters -/

/-- `is_whitespace`. -/
def isWhitespace (ch : Char) : Bool :=
  ch == ' ' || ch == '\t' || ch == '\n' || ch == '\x0b' || ch == '\x0c' || ch == '\r'

/-- `is_id_first_char`. -/
def isIdFirstChar (ch : Char) : Bool := ch.isAlpha

/-- `is_id_char`. -/
def isIdChar (ch : Char) : Bool := ch.isAlphanum || ch == '_'

namespace ParserCtx

/-- `read_next_char`, at a file of which `file` remains behind the character. -/
def readNextChar (ctx : ParserCtx) (file : List Char) : ParserCtx := { ctx with pos := ctx.pos + 1, file := file }

/-- `unread_char`: a `char` above 127 is negative, and `ungetc` returns it as an `unsigned char`. -/
def unreadChar (ctx : ParserCtx) (ch : Char) : Except Exit ParserCtx :=
  if ch.toNat < 128 then .ok { ctx with pos := ctx.pos - 1, file := ch :: ctx.file } else .error .assertion

/-- `clear_lexeme`. -/
def clearLexeme (ctx : ParserCtx) : ParserCtx := { ctx with lexeme := [] }

/-- `finalize_lexeme`. -/
def finalizeLexeme (ctx : ParserCtx) (lexemeType : LexemeType) : ParserCtx := { ctx with lexemeType := lexemeType }

/-- `inc_line_count`. -/
def incLineCount (ctx : ParserCtx) : ParserCtx := { ctx with line := ctx.line + 1, pos := 0 }

/-- Where an error message says it is. -/
def place (ctx : ParserCtx) : String := s!"found at the file [{ctx.filename}], line={ctx.line}, position={ctx.pos}"

/-- `append_to_lexeme`. -/
def appendToLexeme (ctx : ParserCtx) (ch : Char) : Except Exit ParserCtx :=
  if ctx.lexeme.length + 1 = maxLexemeSize then
    .error (.die ("too long lexeme=[" ++ String.ofList ctx.lexeme ++ "...] " ++ ctx.place))
  else .ok { ctx with lexeme := ctx.lexeme ++ [ch] }

/-- A character that nothing can begin or continue with. -/
def unexpectedCharacter (ctx : ParserCtx) (ch : Char) (expected : String) : Exit :=
  .die ("unexpected character=[" ++ ch.toString ++ "] " ++ ctx.place ++ ". Expected: " ++ expected ++ ".")

end ParserCtx

/-! ## The lexer -/

open ParserCtx in
/-- The loop of `read_next_lexeme` at the characters that are left. -/
def readNextLexemeLoop : List Char → LexerState → ParserCtx → Except Exit ParserCtx
  | [], state, ctx =>
    let ctx := ctx.readNextChar []
    match state with
    | .start => .ok (ctx.finalizeLexeme .stop)
    | .inComment => .ok (ctx.finalizeLexeme .stop)
    | .inId => .ok (ctx.finalizeLexeme .id)
  | ch :: file, state, ctx =>
    let ctx := ctx.readNextChar file
    if ch = '#' then
      match state with
      | .start => readNextLexemeLoop file .inComment ctx
      | .inComment => readNextLexemeLoop file .inComment ctx
      | .inId => do
        let ctx ← ctx.unreadChar ch
        .ok (ctx.finalizeLexeme .id)
    else if ch = '\n' then
      let ctx := ctx.incLineCount
      match state with
      | .start => readNextLexemeLoop file .start ctx
      | .inComment => readNextLexemeLoop file .start ctx
      | .inId => .ok (ctx.finalizeLexeme .id)
    else if ch = '{' then
      match state with
      | .start => do
        let ctx ← ctx.appendToLexeme '{'
        .ok (ctx.finalizeLexeme .openBrace)
      | .inComment => readNextLexemeLoop file .inComment ctx
      | .inId => do
        let ctx ← ctx.unreadChar ch
        .ok (ctx.finalizeLexeme .id)
    else if ch = '}' then
      match state with
      | .start => do
        let ctx ← ctx.appendToLexeme '}'
        .ok (ctx.finalizeLexeme .closeBrace)
      | .inComment => readNextLexemeLoop file .inComment ctx
      | .inId => do
        let ctx ← ctx.unreadChar ch
        .ok (ctx.finalizeLexeme .id)
    else
      match state with
      | .start =>
        if isWhitespace ch then readNextLexemeLoop file .start ctx
        else if isIdFirstChar ch then
          match ctx.appendToLexeme ch with
          | .error e => .error e
          | .ok ctx => readNextLexemeLoop file .inId ctx
        else .error (ctx.unexpectedCharacter ch "[\x7b\x7d\\na-z]")
      | .inComment => readNextLexemeLoop file .inComment ctx
      | .inId =>
        if isWhitespace ch then .ok (ctx.finalizeLexeme .id)
        else if isIdChar ch then
          match ctx.appendToLexeme ch with
          | .error e => .error e
          | .ok ctx => readNextLexemeLoop file .inId ctx
        else .error (ctx.unexpectedCharacter ch "[\x7b\x7d\\na-z0-9_]")

/-- `read_next_lexeme`. -/
def readNextLexeme (ctx : ParserCtx) : Except Exit ParserCtx :=
  readNextLexemeLoop ctx.file .start ctx.clearLexeme

/-! ## What a lexeme takes from the file -/

section Loop

variable {ch : Char} {file : List Char} {ctx ctx' : ParserCtx}

/-- A character that ends an identifier. -/
def isDelimiter (ch : Char) : Bool := isWhitespace ch || ch == '#' || ch == '{' || ch == '}'

theorem not_isDelimiter_of_isIdChar (h : isIdChar ch = true) : isDelimiter ch = false := by
  by_contra hd
  simp only [isDelimiter, isWhitespace, Bool.not_eq_false, Bool.or_eq_true, beq_iff_eq] at hd
  rcases hd with (((((((rfl | rfl) | rfl) | rfl) | rfl) | rfl) | rfl) | rfl) | rfl <;> exact absurd h (by decide)

theorem isIdChar_of_isIdFirstChar (h : isIdFirstChar ch = true) : isIdChar ch = true := by
  have h' : ch.isAlpha = true := h
  simp [isIdChar, Char.isAlphanum, h']

/-- What `isDelimiter` excludes, in the form in which the automaton tests it. -/
theorem ne_of_not_isDelimiter (h : isDelimiter ch = false) :
    ch ≠ '#' ∧ ch ≠ '\n' ∧ ch ≠ '{' ∧ ch ≠ '}' ∧ isWhitespace ch = false := by
  simp only [isDelimiter, Bool.or_eq_false_iff, beq_eq_false_iff_ne] at h
  refine ⟨h.1.1.2, ?_, h.1.2, h.2, h.1.1.1⟩
  rintro rfl
  exact absurd h.1.1.1 (by decide)

theorem loop_inComment (h : ch ≠ '\n') :
    readNextLexemeLoop (ch :: file) .inComment ctx = readNextLexemeLoop file .inComment (ctx.readNextChar file) := by
  rw [readNextLexemeLoop]
  simp only [if_neg h, ite_self]

/-- The end of a comment is left to the automaton's start state. -/
theorem loop_comment_end (h : ∀ ch ∈ file.head?, ch = '\n') :
    readNextLexemeLoop file .inComment ctx = readNextLexemeLoop file .start ctx := by
  cases file with
  | nil => rfl
  | cons ch file =>
    obtain rfl : ch = '\n' := h ch rfl
    rfl

theorem loop_start_hash :
    readNextLexemeLoop ('#' :: file) .start ctx = readNextLexemeLoop file .inComment (ctx.readNextChar file) := rfl

variable (file ctx) in
theorem loop_start_whitespace (h : isWhitespace ch = true) :
    ∃ ctx₁, ctx₁.lexeme = ctx.lexeme ∧
      readNextLexemeLoop (ch :: file) .start ctx = readNextLexemeLoop file .start ctx₁ := by
  by_cases hn : ch = '\n'
  · subst hn
    exact ⟨(ctx.readNextChar file).incLineCount, rfl, rfl⟩
  · refine ⟨ctx.readNextChar file, rfl, ?_⟩
    have hne : ch ≠ '#' ∧ ch ≠ '{' ∧ ch ≠ '}' := by
      refine ⟨?_, ?_, ?_⟩ <;> rintro rfl <;> exact absurd h (by decide)
    rw [readNextLexemeLoop]
    simp only [if_neg hne.1, if_neg hn, if_neg hne.2.1, if_neg hne.2.2, h, if_true]

theorem appendToLexeme_of_lt {ctx : ParserCtx} (h : ctx.lexeme.length < 99) (ch : Char) :
    ctx.appendToLexeme ch = .ok { ctx with lexeme := ctx.lexeme ++ [ch] } := by
  unfold ParserCtx.appendToLexeme maxLexemeSize
  rw [if_neg (by omega)]

theorem loop_start_id (h : isIdFirstChar ch = true) (hctx : ctx.lexeme = []) :
    readNextLexemeLoop (ch :: file) .start ctx
      = readNextLexemeLoop file .inId { ctx.readNextChar file with lexeme := [ch] } := by
  obtain ⟨h1, h2, h3, h4, h5⟩ :=
    ne_of_not_isDelimiter (not_isDelimiter_of_isIdChar (isIdChar_of_isIdFirstChar h))
  have happend : (ctx.readNextChar file).appendToLexeme ch = .ok { ctx.readNextChar file with lexeme := [ch] } := by
    have hlex : (ctx.readNextChar file).lexeme = [] := hctx
    rw [appendToLexeme_of_lt (by rw [hlex]; decide), hlex]
    rfl
  rw [readNextLexemeLoop]
  simp only [if_neg h1, if_neg h2, if_neg h3, if_neg h4, h5, h, if_true, Bool.false_eq_true, if_false, happend]

variable (file) in
theorem loop_start_brace {brace : Char} {lexemeType : LexemeType}
    (h : brace = '{' ∧ lexemeType = .openBrace ∨ brace = '}' ∧ lexemeType = .closeBrace) (hctx : ctx.lexeme = []) :
    ∃ ctx', readNextLexemeLoop (brace :: file) .start ctx = .ok ctx' ∧ ctx'.lexemeType = lexemeType ∧
      ctx'.file = file := by
  have hlt : (ctx.readNextChar file).lexeme.length < 99 := by
    show ctx.lexeme.length < 99
    rw [hctx]
    decide
  refine ⟨{ ctx.readNextChar file with lexeme := ctx.lexeme ++ [brace], lexemeType := lexemeType }, ?_, rfl, rfl⟩
  rcases h with ⟨rfl, rfl⟩ | ⟨rfl, rfl⟩
  · show (ctx.readNextChar file).appendToLexeme '{' >>= _ = _
    rw [appendToLexeme_of_lt hlt]
    rfl
  · show (ctx.readNextChar file).appendToLexeme '}' >>= _ = _
    rw [appendToLexeme_of_lt hlt]
    rfl

theorem loop_inId_idChar (h : isIdChar ch = true) :
    readNextLexemeLoop (ch :: file) .inId ctx
      = match (ctx.readNextChar file).appendToLexeme ch with
        | .error e => .error e
        | .ok ctx => readNextLexemeLoop file .inId ctx := by
  obtain ⟨h1, h2, h3, h4, h5⟩ := ne_of_not_isDelimiter (not_isDelimiter_of_isIdChar h)
  rw [readNextLexemeLoop]
  simp only [if_neg h1, if_neg h2, if_neg h3, if_neg h4, h5, h, if_true, Bool.false_eq_true, if_false]

variable (file ctx) in
/-- The character that ends an identifier is lost if it is white space, and unread otherwise. -/
theorem loop_inId_delimiter (h : isDelimiter ch = true) :
    ∃ ctx', readNextLexemeLoop (ch :: file) .inId ctx = .ok ctx' ∧ ctx'.lexemeType = .id ∧ ctx'.lexeme = ctx.lexeme ∧
      ctx'.file = if isWhitespace ch then file else ch :: file := by
  by_cases hw : isWhitespace ch = true
  · rw [if_pos hw]
    by_cases hn : ch = '\n'
    · subst hn
      exact ⟨_, rfl, rfl, rfl, rfl⟩
    · have hne : ch ≠ '#' ∧ ch ≠ '{' ∧ ch ≠ '}' := by
        refine ⟨?_, ?_, ?_⟩ <;> rintro rfl <;> exact absurd hw (by decide)
      refine ⟨(ctx.readNextChar file).finalizeLexeme .id, ?_, rfl, rfl, rfl⟩
      rw [readNextLexemeLoop]
      simp only [if_neg hne.1, if_neg hn, if_neg hne.2.1, if_neg hne.2.2, hw, if_true]
  · rw [if_neg hw]
    simp only [isDelimiter, Bool.or_eq_true, beq_iff_eq, hw, false_or, Bool.false_eq_true] at h
    rcases h with (rfl | rfl) | rfl <;> exact ⟨_, rfl, rfl, rfl, rfl⟩

theorem file_of_unreadChar (h : ctx.unreadChar ch = .ok ctx') : ctx'.file = ch :: ctx.file := by
  unfold ParserCtx.unreadChar at h
  split at h
  · cases h
    rfl
  · cases h

theorem file_of_appendToLexeme (h : ctx.appendToLexeme ch = .ok ctx') : ctx'.file = ctx.file := by
  unfold ParserCtx.appendToLexeme at h
  split at h
  · cases h
  · cases h
    rfl

/-- **A lexeme takes a character**, unless it is the end of the file or the rest of an identifier. -/
theorem length_loop : ∀ (file : List Char) (state : LexerState) (ctx ctx' : ParserCtx),
    readNextLexemeLoop file state ctx = .ok ctx' →
    ctx'.file.length ≤ file.length ∧
      (state ≠ .inId → ctx'.lexemeType ≠ .stop → ctx'.file.length < file.length)
  | [], state, ctx, ctx', h => by
    cases state <;> cases h
    · exact ⟨Nat.le_refl _, fun _ hstop => absurd rfl hstop⟩
    · exact ⟨Nat.le_refl _, fun _ hstop => absurd rfl hstop⟩
    · exact ⟨Nat.le_refl _, fun hid => absurd rfl hid⟩
  | ch :: file, state, ctx, ctx', h => by
    have htail : ∀ {state₁ ctx₁}, readNextLexemeLoop file state₁ ctx₁ = .ok ctx' → ctx'.file.length < file.length + 1 :=
      fun h₁ => Nat.lt_succ_of_le (length_loop file _ _ _ h₁).1
    have hunread : (ctx.readNextChar file).unreadChar ch >>= (fun ctx => .ok (ctx.finalizeLexeme .id)) = .ok ctx' →
        ctx'.file.length ≤ file.length + 1 := by
      intro h₁
      obtain ⟨ctx₁, hctx₁, hok⟩ := bind_eq_ok h₁
      cases hok
      exact Nat.le_of_eq (congrArg List.length (file_of_unreadChar hctx₁))
    have hbrace : ∀ {brace lexemeType}, (ctx.readNextChar file).appendToLexeme brace >>=
        (fun ctx => .ok (ctx.finalizeLexeme lexemeType)) = .ok ctx' → ctx'.file.length < file.length + 1 := by
      intro brace lexemeType h₁
      obtain ⟨ctx₁, hctx₁, hok⟩ := bind_eq_ok h₁
      cases hok
      exact Nat.lt_succ_of_le (Nat.le_of_eq (congrArg List.length (file_of_appendToLexeme hctx₁)))
    have hidChar : (match (ctx.readNextChar file).appendToLexeme ch with
        | .error e => (.error e : Except Exit ParserCtx)
        | .ok ctx => readNextLexemeLoop file .inId ctx) = .ok ctx' → ctx'.file.length < file.length + 1 := by
      intro h₁
      split at h₁
      · cases h₁
      · exact htail h₁
    rw [List.length_cons]
    cases state with
    | start =>
      have hlt : ctx'.file.length < file.length + 1 := by
        rw [readNextLexemeLoop] at h
        dsimp only at h
        split_ifs at h
        · exact htail h
        · exact htail h
        · exact hbrace h
        · exact hbrace h
        · exact htail h
        · exact hidChar h
      exact ⟨hlt.le, fun _ _ => hlt⟩
    | inComment =>
      have hlt : ctx'.file.length < file.length + 1 := by
        rw [readNextLexemeLoop] at h
        dsimp only at h
        split_ifs at h <;> exact htail h
      exact ⟨hlt.le, fun _ _ => hlt⟩
    | inId =>
      refine ⟨?_, fun hid => absurd rfl hid⟩
      rw [readNextLexemeLoop] at h
      dsimp only at h
      split_ifs at h
      · exact hunread h
      · cases h
        exact Nat.le_succ _
      · exact hunread h
      · exact hunread h
      · cases h
        exact Nat.le_succ _
      · exact (hidChar h).le

/-- **Nothing is left behind the end of the file.** -/
theorem file_of_stop : ∀ (file : List Char) (state : LexerState) (ctx ctx' : ParserCtx),
    readNextLexemeLoop file state ctx = .ok ctx' → ctx'.lexemeType = .stop → ctx'.file = []
  | [], state, ctx, ctx', h, _ => by
    cases state <;> cases h <;> rfl
  | ch :: file, state, ctx, ctx', h, hstop => by
    have htail : ∀ {state₁ ctx₁}, readNextLexemeLoop file state₁ ctx₁ = .ok ctx' → ctx'.file = [] :=
      fun h₁ => file_of_stop file _ _ _ h₁ hstop
    have hother : ∀ {x : Except Exit ParserCtx} {lexemeType : LexemeType},
        x >>= (fun ctx => .ok (ctx.finalizeLexeme lexemeType)) = .ok ctx' → lexemeType ≠ .stop → ctx'.file = [] := by
      intro x lexemeType h₁ hne
      obtain ⟨ctx₁, -, hok⟩ := bind_eq_ok h₁
      cases hok
      exact absurd hstop hne
    have hidChar : (match (ctx.readNextChar file).appendToLexeme ch with
        | .error e => (.error e : Except Exit ParserCtx)
        | .ok ctx => readNextLexemeLoop file .inId ctx) = .ok ctx' → ctx'.file = [] := by
      intro h₁
      split at h₁
      · cases h₁
      · exact htail h₁
    cases state with
    | start =>
      rw [readNextLexemeLoop] at h
      dsimp only at h
      split_ifs at h
      · exact htail h
      · exact htail h
      · exact hother h (fun h => nomatch h)
      · exact hother h (fun h => nomatch h)
      · exact htail h
      · exact hidChar h
    | inComment =>
      rw [readNextLexemeLoop] at h
      dsimp only at h
      split_ifs at h <;> exact htail h
    | inId =>
      rw [readNextLexemeLoop] at h
      dsimp only at h
      split_ifs at h
      · exact hother h (fun h => nomatch h)
      · cases h
        cases hstop
      · exact hother h (fun h => nomatch h)
      · exact hother h (fun h => nomatch h)
      · cases h
        cases hstop
      · exact hidChar h

end Loop

/-! ## The parser -/

namespace ParserCtx

/-- `fail`. -/
def fail (ctx : ParserCtx) (expected : String) : Exit :=
  .die ("unexpected lexeme [" ++ String.ofList ctx.lexeme ++ "] " ++ ctx.place ++ ". Expected: " ++ expected ++ ".")

/-- `test`. -/
def test (ctx : ParserCtx) (lexemeType : LexemeType) : Bool := ctx.lexemeType == lexemeType

/-- `test_id`. -/
def testId (ctx : ParserCtx) (s : String) : Bool := ctx.test .id && s.toList == ctx.lexeme

/-- `match`. -/
def matchLexeme (ctx : ParserCtx) (lexemeType : LexemeType) : Except Exit ParserCtx :=
  if ctx.test lexemeType then readNextLexeme ctx else .error (ctx.fail (lexemeTypeToString lexemeType))

/-- `match_id`. -/
def matchId (ctx : ParserCtx) (s : String) : Except Exit ParserCtx :=
  if ctx.testId s then ctx.matchLexeme .id else .error (ctx.fail s)

/-- The type that the current lexeme names, in the order of `match_param`. -/
def paramType (ctx : ParserCtx) : Except Exit ParamType :=
  if ctx.testId "uint32" then .ok .uint32
  else if ctx.testId "int32" then .ok .int32
  else if ctx.testId "uint64" then .ok .uint64
  else if ctx.testId "int64" then .ok .int64
  else if ctx.testId "char_array" then .ok .charArray
  else if ctx.testId "wchar_array" then .ok .wcharArray
  else if ctx.testId "blob" then .ok .blob
  else .error (ctx.fail "parameter type")

/-- The beginning of `match_param`: the word `key` before a request parameter. -/
def matchKey (ctx : ParserCtx) (paramsType : ParamsType) : Except Exit (Bool × ParserCtx) :=
  if paramsType == .request && ctx.testId "key" then do
    let ctx ← ctx.matchLexeme .id
    .ok (true, ctx)
  else .ok (false, ctx)

/-- `match_param`. -/
def matchParam (ctx : ParserCtx) (paramsType : ParamsType) : Except Exit (Param × ParserCtx) := do
  let (isKey, ctx) ← ctx.matchKey paramsType
  let type ← ctx.paramType
  let ctx ← ctx.matchLexeme .id
  let name := ctx.lexeme
  let ctx ← ctx.matchLexeme .id
  .ok (⟨type, isKey, name⟩, ctx)

/-! ## The loops of the parser -/

/-- What is left to read, the current lexeme included. -/
def left (ctx : ParserCtx) : Nat := ctx.file.length + if ctx.lexemeType = .stop then 0 else 1

variable {ctx ctx' : ParserCtx}

theorem left_readNextLexeme (h : readNextLexeme ctx = .ok ctx') (hne : ctx.lexemeType ≠ .stop) :
    ctx'.left < ctx.left := by
  obtain ⟨hle, hlt⟩ := length_loop _ _ _ _ h
  have hlt' := hlt (fun h => nomatch h)
  unfold left
  rw [if_neg hne]
  by_cases hstop : ctx'.lexemeType = .stop
  · rw [if_pos hstop]
    omega
  · rw [if_neg hstop]
    have := hlt' hstop
    omega

theorem left_matchLexeme {lexemeType : LexemeType} (h : ctx.matchLexeme lexemeType = .ok ctx')
    (hne : lexemeType ≠ .stop) : ctx'.left < ctx.left := by
  unfold matchLexeme at h
  split at h
  · rename_i htest
    have heq : ctx.lexemeType = lexemeType := by simpa [test] using htest
    exact left_readNextLexeme h (by rwa [heq])
  · cases h

theorem left_matchId {s : String} (h : ctx.matchId s = .ok ctx') : ctx'.left < ctx.left := by
  unfold matchId at h
  split at h
  · exact left_matchLexeme h (fun h => nomatch h)
  · cases h

theorem left_matchParam {paramsType : ParamsType} {param : Param} (h : ctx.matchParam paramsType = .ok (param, ctx')) :
    ctx'.left < ctx.left := by
  unfold matchParam at h
  obtain ⟨⟨isKey, ctx₁⟩, h₁, h⟩ := bind_eq_ok h
  obtain ⟨type, -, h⟩ := bind_eq_ok h
  obtain ⟨ctx₂, h₂, h⟩ := bind_eq_ok h
  obtain ⟨ctx₃, h₃, h⟩ := bind_eq_ok h
  cases h
  have hkey : ctx₁.left ≤ ctx.left := by
    unfold matchKey at h₁
    split at h₁
    · obtain ⟨ctx₀, h₀, h₁⟩ := bind_eq_ok h₁
      cases h₁
      exact (left_matchLexeme h₀ (fun h => nomatch h)).le
    · cases h₁
      exact Nat.le_refl _
  have htype := left_matchLexeme h₂ (fun h => nomatch h)
  have hname := left_matchLexeme h₃ (fun h => nomatch h)
  omega

/-- The loop of `match_params`. -/
def matchParamsLoop (ctx : ParserCtx) (paramsType : ParamsType) : Except Exit (List Param × ParserCtx) :=
  if ctx.test .closeBrace then .ok ([], ctx)
  else
    match h : ctx.matchParam paramsType with
    | .error e => .error e
    | .ok (param, ctx₁) => do
      let (params, ctx₂) ← ctx₁.matchParamsLoop paramsType
      .ok (param :: params, ctx₂)
termination_by ctx.left
decreasing_by exact left_matchParam h

/-- `match_params`. -/
def matchParams (ctx : ParserCtx) (paramsType : ParamsType) : Except Exit (List Param × ParserCtx) := do
  let ctx ← ctx.matchId (if paramsType = .request then "request" else "response")
  let ctx ← ctx.matchLexeme .openBrace
  let (params, ctx) ← ctx.matchParamsLoop paramsType
  let ctx ← ctx.matchLexeme .closeBrace
  .ok (params, ctx)

/-- `match_method`. -/
def matchMethod (ctx : ParserCtx) : Except Exit (Method × ParserCtx) := do
  let ctx ← ctx.matchId "method"
  let name := ctx.lexeme
  let ctx ← ctx.matchLexeme .id
  let ctx ← ctx.matchLexeme .openBrace
  let (requestParams, ctx) ← ctx.matchParams .request
  let (responseParams, ctx) ← ctx.matchParams .response
  let ctx ← ctx.matchLexeme .closeBrace
  .ok (⟨requestParams, responseParams, name⟩, ctx)

/-- **One turn of the loop over the parameters.** -/
theorem matchParamsLoop_eq (ctx : ParserCtx) (paramsType : ParamsType) :
    ctx.matchParamsLoop paramsType
      = if ctx.test .closeBrace then .ok ([], ctx)
        else ctx.matchParam paramsType >>= fun (param, ctx₁) =>
          ctx₁.matchParamsLoop paramsType >>= fun (params, ctx₂) => .ok (param :: params, ctx₂) := by
  rw [matchParamsLoop]
  split
  · rfl
  · split
    · rename_i e h
      rw [h]
      rfl
    · rename_i param ctx₁ h
      rw [h]
      rfl

theorem left_matchParamsLoop {paramsType : ParamsType} {params : List Param}
    (h : ctx.matchParamsLoop paramsType = .ok (params, ctx')) : ctx'.left ≤ ctx.left := by
  induction params generalizing ctx with
  | nil =>
    rw [matchParamsLoop_eq] at h
    split at h
    · cases h
      exact Nat.le_refl _
    · obtain ⟨⟨param, ctx₁⟩, -, h⟩ := bind_eq_ok h
      obtain ⟨⟨params, ctx₂⟩, -, h⟩ := bind_eq_ok h
      cases h
  | cons param params ih =>
    rw [matchParamsLoop_eq] at h
    split at h
    · cases h
    · obtain ⟨⟨param, ctx₁⟩, h₁, h⟩ := bind_eq_ok h
      obtain ⟨⟨params, ctx₂⟩, h₂, h⟩ := bind_eq_ok h
      cases h
      exact (ih h₂).trans (left_matchParam h₁).le

theorem left_matchParams {paramsType : ParamsType} {params : List Param}
    (h : ctx.matchParams paramsType = .ok (params, ctx')) : ctx'.left < ctx.left := by
  unfold matchParams at h
  obtain ⟨ctx₁, h₁, h⟩ := bind_eq_ok h
  obtain ⟨ctx₂, h₂, h⟩ := bind_eq_ok h
  obtain ⟨⟨params, ctx₃⟩, h₃, h⟩ := bind_eq_ok h
  obtain ⟨ctx₄, h₄, h⟩ := bind_eq_ok h
  cases h
  have := left_matchId h₁
  have := left_matchLexeme h₂ (fun h => nomatch h)
  have := left_matchParamsLoop h₃
  have := left_matchLexeme h₄ (fun h => nomatch h)
  omega

theorem left_matchMethod {method : Method} (h : ctx.matchMethod = .ok (method, ctx')) : ctx'.left < ctx.left := by
  unfold matchMethod at h
  obtain ⟨ctx₁, h₁, h⟩ := bind_eq_ok h
  obtain ⟨ctx₂, h₂, h⟩ := bind_eq_ok h
  obtain ⟨ctx₃, h₃, h⟩ := bind_eq_ok h
  obtain ⟨⟨requestParams, ctx₄⟩, h₄, h⟩ := bind_eq_ok h
  obtain ⟨⟨responseParams, ctx₅⟩, h₅, h⟩ := bind_eq_ok h
  obtain ⟨ctx₆, h₆, h⟩ := bind_eq_ok h
  cases h
  have := left_matchId h₁
  have := left_matchLexeme h₂ (fun h => nomatch h)
  have := left_matchLexeme h₃ (fun h => nomatch h)
  have := left_matchParams h₄
  have := left_matchParams h₅
  have := left_matchLexeme h₆ (fun h => nomatch h)
  omega

/-- The loop of `match_methods`. -/
def matchMethodsLoop (ctx : ParserCtx) : Except Exit (List Method × ParserCtx) :=
  if ctx.testId "method" then
    match h : ctx.matchMethod with
    | .error e => .error e
    | .ok (method, ctx₁) => do
      let (methods, ctx₂) ← ctx₁.matchMethodsLoop
      .ok (method :: methods, ctx₂)
  else .ok ([], ctx)
termination_by ctx.left
decreasing_by exact left_matchMethod h

/-- `match_methods`. -/
def matchMethods (ctx : ParserCtx) : Except Exit (List Method × ParserCtx) := do
  let (method, ctx) ← ctx.matchMethod
  let (methods, ctx) ← ctx.matchMethodsLoop
  .ok (method :: methods, ctx)

/-- `match_interface`. -/
def matchInterface (ctx : ParserCtx) : Except Exit Interface := do
  let ctx ← ctx.matchLexeme .start
  let ctx ← ctx.matchId "interface"
  let name := ctx.lexeme
  let ctx ← ctx.matchLexeme .id
  let ctx ← ctx.matchLexeme .openBrace
  let (methods, ctx) ← ctx.matchMethods
  let ctx ← ctx.matchLexeme .closeBrace
  let _ ← ctx.matchLexeme .stop
  .ok ⟨methods, name⟩

/-- **One turn of the loop over the methods.** -/
theorem matchMethodsLoop_eq (ctx : ParserCtx) :
    ctx.matchMethodsLoop
      = if ctx.testId "method" then ctx.matchMethod >>= fun (method, ctx₁) =>
          ctx₁.matchMethodsLoop >>= fun (methods, ctx₂) => .ok (method :: methods, ctx₂)
        else .ok ([], ctx) := by
  rw [matchMethodsLoop]
  split
  · split
    · rename_i e h
      rw [h]
      rfl
    · rename_i method ctx₁ h
      rw [h]
      rfl
  · rfl

end ParserCtx

/-- `parse_interface`, of a file that can be opened. -/
def parseInterface (filename : String) (text : List Char) : Except Exit Interface :=
  ParserCtx.matchInterface ⟨.start, [], 1, 0, filename, text⟩

end Mrpc
