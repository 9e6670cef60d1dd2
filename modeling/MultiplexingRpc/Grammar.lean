import MultiplexingRpc.Parser
/-!
# Grammar — the parser accepts its grammar

`Lexes` says which words a text consists of, and `Grammar.Interface` which sequences of words are an interface with
which syntax tree, as the comment in `test.mrpc-interface` has it.  The compiler's parser accepts exactly these texts and
builds that tree; on every other text it ends in `die`.
-/
namespace Mrpc

inductive Token where
  | id (name : List Char)
  | openBrace
  | closeBrace
  deriving DecidableEq, Repr

/-- A letter, and then letters, digits and underscores. -/
def IsId : List Char → Prop
  | [] => False
  | ch :: name => isIdFirstChar ch = true ∧ ∀ c ∈ name, isIdChar c = true

instance : DecidablePred IsId
  | [] => isFalse id
  | ch :: name => decidable_of_iff ((isIdFirstChar ch && name.all isIdChar) = true) (by simp [IsId])

/-- **The words of a text**: braces and identifiers, between white space and comments.  An identifier is as long as it
can be, and no longer than 99 characters. -/
inductive Lexes : List Char → List Token → Prop where
  | nil : Lexes [] []
  | whitespace {ch : Char} {text : List Char} {tokens : List Token} (hch : isWhitespace ch = true)
    (hrest : Lexes text tokens) : Lexes (ch :: text) tokens
  | comment {body text : List Char} {tokens : List Token} (hbody : ∀ ch ∈ body, ch ≠ '\n')
    (hend : ∀ ch ∈ text.head?, ch = '\n') (hrest : Lexes text tokens) : Lexes ('#' :: (body ++ text)) tokens
  | openBrace {text : List Char} {tokens : List Token} (hrest : Lexes text tokens) :
    Lexes ('{' :: text) (.openBrace :: tokens)
  | closeBrace {text : List Char} {tokens : List Token} (hrest : Lexes text tokens) :
    Lexes ('}' :: text) (.closeBrace :: tokens)
  | id {name text : List Char} {tokens : List Token} (hname : IsId name) (hlen : name.length ≤ 99)
    (hend : ∀ ch ∈ text.head?, isDelimiter ch = true) (hrest : Lexes text tokens) :
    Lexes (name ++ text) (.id name :: tokens)

/-! ## The grammar -/

namespace Grammar

/-- `TYPE`. -/
def typeWord : ParamType → String
  | .uint32 => "uint32"
  | .uint64 => "uint64"
  | .int32 => "int32"
  | .int64 => "int64"
  | .wcharArray => "wchar_array"
  | .charArray => "char_array"
  | .blob => "blob"

/-- A keyword is an identifier where the grammar asks for it. -/
def word (s : String) : Token := .id s.toList

/-- `REQUEST_PARAM` and `RESPONSE_PARAM`. -/
inductive Param : ParamsType → List Token → Mrpc.Param → Prop where
  | plain (paramsType : ParamsType) (type : ParamType) (name : List Char) :
    Param paramsType [word (typeWord type), .id name] ⟨type, false, name⟩
  | key (type : ParamType) (name : List Char) :
    Param .request [word "key", word (typeWord type), .id name] ⟨type, true, name⟩

/-- `{ X }`: a sequence of words of the kind `X`. -/
inductive Sequence {α : Type} (X : List Token → α → Prop) : List Token → List α → Prop where
  | nil : Sequence X [] []
  | cons {tokens rest : List Token} {a : α} {as : List α} (ha : X tokens a) (has : Sequence X rest as) :
    Sequence X (tokens ++ rest) (a :: as)

/-- The word in front of a list of parameters. -/
def paramsWord (paramsType : ParamsType) : String := if paramsType = .request then "request" else "response"

/-- `REQUEST_PARAMS` and `RESPONSE_PARAMS`. -/
inductive Params (paramsType : ParamsType) : List Token → List Mrpc.Param → Prop where
  | mk {tokens : List Token} {params : List Mrpc.Param} (h : Sequence (Param paramsType) tokens params) :
    Params paramsType (word (paramsWord paramsType) :: .openBrace :: (tokens ++ [.closeBrace])) params

/-- `METHOD`. -/
inductive Method : List Token → Mrpc.Method → Prop where
  | mk {request response : List Token} {requestParams responseParams : List Mrpc.Param} (name : List Char)
    (hrequest : Params .request request requestParams) (hresponse : Params .response response responseParams) :
    Method (word "method" :: .id name :: .openBrace :: (request ++ (response ++ [.closeBrace])))
      ⟨requestParams, responseParams, name⟩

/-- `INTERFACE`, with its `METHODS_LIST`. -/
inductive Interface : List Token → Mrpc.Interface → Prop where
  | mk {first rest : List Token} {method : Mrpc.Method} {methods : List Mrpc.Method} (name : List Char)
    (hfirst : Method first method) (hrest : Sequence Method rest methods) :
    Interface (word "interface" :: .id name :: .openBrace :: (first ++ (rest ++ [.closeBrace])))
      ⟨method :: methods, name⟩

end Grammar

/-! ## The lexer reads the next word -/

theorem Lexes.of_whitespace {ch : Char} {text : List Char} {tokens : List Token} (hch : isWhitespace ch = true)
    (h : Lexes (ch :: text) tokens) : Lexes text tokens := by
  generalize hall : ch :: text = all at h
  cases h with
  | nil => cases hall
  | whitespace _ hrest =>
    cases hall
    exact hrest
  | comment _ _ _ =>
    cases hall
    exact absurd hch (by decide)
  | openBrace _ =>
    cases hall
    exact absurd hch (by decide)
  | closeBrace _ =>
    cases hall
    exact absurd hch (by decide)
  | @id name _ _ hname _ _ _ =>
    cases name with
    | nil => exact hname.elim
    | cons first name =>
      cases hall
      have hd := not_isDelimiter_of_isIdChar (isIdChar_of_isIdFirstChar hname.1)
      rw [(ne_of_not_isDelimiter hd).2.2.2.2] at hch
      cases hch

/-- The text behind the character that ends an identifier, if that is white space. -/
def afterId : List Char → List Char
  | [] => []
  | ch :: text => if isWhitespace ch then text else ch :: text

theorem lexes_afterId (text : List Char) (tokens : List Token) : Lexes (afterId text) tokens ↔ Lexes text tokens := by
  cases text with
  | nil => exact Iff.rfl
  | cons ch text =>
    rw [afterId]
    by_cases hw : isWhitespace ch = true
    · rw [if_pos hw]
      exact ⟨fun h => .whitespace hw h, fun h => h.of_whitespace hw⟩
    · rw [if_neg hw]

/-- **A comment is read to its end.** -/
theorem loop_comment : ∀ (body text : List Char) (ctx : ParserCtx), (∀ ch ∈ body, ch ≠ '\n') →
    (∀ ch ∈ text.head?, ch = '\n') → ∃ ctx₁, ctx₁.lexeme = ctx.lexeme ∧
      readNextLexemeLoop (body ++ text) .inComment ctx = readNextLexemeLoop text .start ctx₁
  | [], text, ctx, _, hend => ⟨ctx, rfl, loop_comment_end hend⟩
  | ch :: body, text, ctx, hbody, hend => by
    obtain ⟨ctx₁, hlex, hloop⟩ := loop_comment body text (ctx.readNextChar (body ++ text))
      (fun c hc => hbody c (List.mem_cons_of_mem _ hc)) hend
    refine ⟨ctx₁, hlex, ?_⟩
    rw [List.cons_append, loop_inComment (hbody ch List.mem_cons_self), hloop]

/-- **An identifier is read to its end**, if it fits. -/
theorem loop_id : ∀ (name text : List Char) (ctx : ParserCtx), (∀ ch ∈ name, isIdChar ch = true) →
    (∀ ch ∈ text.head?, isDelimiter ch = true) → ctx.lexeme.length + name.length ≤ 99 →
    ∃ ctx', readNextLexemeLoop (name ++ text) .inId ctx = .ok ctx' ∧ ctx'.lexemeType = .id ∧
      ctx'.lexeme = ctx.lexeme ++ name ∧ ctx'.file = afterId text
  | [], [], ctx, _, _, _ => ⟨_, rfl, rfl, (List.append_nil _).symm, rfl⟩
  | [], ch :: text, ctx, _, hend, _ => by
    obtain ⟨ctx', hloop, htype, hlex, hfile⟩ := loop_inId_delimiter text ctx (hend ch rfl)
    exact ⟨ctx', hloop, htype, by rw [hlex, List.append_nil], hfile⟩
  | ch :: name, text, ctx, hname, hend, hlen => by
    rw [List.length_cons] at hlen
    have hlt : ctx.lexeme.length < 99 := by omega
    have happend : (ctx.readNextChar (name ++ text)).appendToLexeme ch
        = .ok { ctx.readNextChar (name ++ text) with lexeme := ctx.lexeme ++ [ch] } :=
      appendToLexeme_of_lt (show (ctx.readNextChar (name ++ text)).lexeme.length < 99 from hlt) ch
    obtain ⟨ctx', hloop, htype, hlex, hfile⟩ := loop_id name text
      { ctx.readNextChar (name ++ text) with lexeme := ctx.lexeme ++ [ch] }
      (fun c hc => hname c (List.mem_cons_of_mem _ hc)) hend
      (by rw [List.length_append, List.length_singleton]; omega)
    refine ⟨ctx', ?_, htype, ?_, hfile⟩
    · rw [List.cons_append, loop_inId_idChar (hname ch List.mem_cons_self), happend]
      exact hloop
    · rw [hlex, List.append_assoc, List.singleton_append]

/-- What an identifier that was read looks like. -/
theorem id_of_loop : ∀ (file : List Char) (ctx ctx' : ParserCtx), ctx.lexeme.length ≤ 99 →
    readNextLexemeLoop file .inId ctx = .ok ctx' →
    ∃ name text, file = name ++ text ∧ (∀ ch ∈ name, isIdChar ch = true) ∧
      (∀ ch ∈ text.head?, isDelimiter ch = true) ∧ ctx.lexeme.length + name.length ≤ 99 ∧
      ctx'.lexemeType = .id ∧ ctx'.lexeme = ctx.lexeme ++ name ∧ ctx'.file = afterId text
  | [], ctx, ctx', hlen, h => by
    cases h
    exact ⟨[], [], rfl, by simp, by simp, hlen, rfl, (List.append_nil _).symm, rfl⟩
  | ch :: file, ctx, ctx', hlen, h => by
    by_cases hid : isIdChar ch = true
    · rw [loop_inId_idChar hid] at h
      by_cases hlt : ctx.lexeme.length < 99
      · rw [appendToLexeme_of_lt (show (ctx.readNextChar file).lexeme.length < 99 from hlt)] at h
        obtain ⟨name, text, rfl, hname, hend, hlen', htype, hlex, hfile⟩ := id_of_loop file _ ctx'
          (by rw [List.length_append, List.length_singleton]; exact hlt) h
        have hlex' : ctx'.lexeme = (ctx.lexeme ++ [ch]) ++ name := hlex
        have hlen'' : (ctx.lexeme ++ [ch]).length + name.length ≤ 99 := hlen'
        rw [List.length_append, List.length_singleton] at hlen''
        refine ⟨ch :: name, text, rfl, ?_, hend, ?_, htype, ?_, hfile⟩
        · intro c hc
          rcases List.mem_cons.1 hc with rfl | hc
          · exact hid
          · exact hname c hc
        · rw [List.length_cons]
          omega
        · rw [hlex', List.append_assoc, List.singleton_append]
      · -- the buffer is full
        have hfull : (ctx.readNextChar file).lexeme.length + 1 = maxLexemeSize := by
          show ctx.lexeme.length + 1 = 100
          omega
        simp only [ParserCtx.appendToLexeme, if_pos hfull] at h
        cases h
    · by_cases hd : isDelimiter ch = true
      · obtain ⟨ctx₁, hloop, htype, hlex, hfile⟩ := loop_inId_delimiter file ctx hd
        rw [hloop] at h
        cases h
        exact ⟨[], ch :: file, rfl, by simp, by simpa using hd, hlen, htype, by rw [hlex, List.append_nil], hfile⟩
      · obtain ⟨h1, h2, h3, h4, h5⟩ := ne_of_not_isDelimiter (Bool.not_eq_true _ ▸ hd)
        rw [readNextLexemeLoop] at h
        simp only [if_neg h1, if_neg h2, if_neg h3, if_neg h4, h5, hid, Bool.false_eq_true, if_false] at h
        cases h

namespace ParserCtx

/-- The current lexeme is this word. -/
def Holds (ctx : ParserCtx) : Token → Prop
  | .id name => ctx.lexemeType = .id ∧ ctx.lexeme = name
  | .openBrace => ctx.lexemeType = .openBrace
  | .closeBrace => ctx.lexemeType = .closeBrace

/-- The words ahead, the current lexeme included. -/
def Ahead (ctx : ParserCtx) : List Token → Prop
  | [] => ctx.lexemeType = .stop ∧ Lexes ctx.file []
  | token :: tokens => ctx.Holds token ∧ Lexes ctx.file tokens

/-- **The next lexeme is the first word of the text.** -/
theorem ahead_of_lexes {text : List Char} {tokens : List Token} (h : Lexes text tokens) (ctx : ParserCtx)
    (hctx : ctx.lexeme = []) : ∃ ctx', readNextLexemeLoop text .start ctx = .ok ctx' ∧ ctx'.Ahead tokens := by
  induction h generalizing ctx with
  | nil => exact ⟨_, rfl, rfl, .nil⟩
  | @whitespace _ text _ hch _ ih =>
    obtain ⟨ctx₁, hlex, hloop⟩ := loop_start_whitespace text ctx hch
    rw [hloop]
    exact ih ctx₁ (hlex.trans hctx)
  | @comment body text tokens hbody hend _ ih =>
    obtain ⟨ctx₁, hlex, hloop⟩ := loop_comment body text (ctx.readNextChar (body ++ text)) hbody hend
    rw [loop_start_hash, hloop]
    exact ih ctx₁ (hlex.trans hctx)
  | @openBrace text _ hrest _ =>
    obtain ⟨ctx', hloop, htype, hfile⟩ := loop_start_brace text (.inl ⟨rfl, rfl⟩) hctx
    exact ⟨ctx', hloop, htype, by rwa [hfile]⟩
  | @closeBrace text _ hrest _ =>
    obtain ⟨ctx', hloop, htype, hfile⟩ := loop_start_brace text (.inr ⟨rfl, rfl⟩) hctx
    exact ⟨ctx', hloop, htype, by rwa [hfile]⟩
  | @id name text tokens hname hlen hend hrest _ =>
    cases name with
    | nil => exact hname.elim
    | cons ch name =>
      obtain ⟨ctx', hloop, htype, hlex, hfile⟩ := loop_id name text
        { ctx.readNextChar (name ++ text) with lexeme := [ch] } hname.2 hend
        (by simpa [Nat.add_comm] using hlen)
      rw [List.cons_append, loop_start_id hname.1 hctx]
      refine ⟨ctx', hloop, ⟨htype, hlex⟩, ?_⟩
      rw [hfile, lexes_afterId]
      exact hrest

theorem eq_cons_of_ahead {ctx : ParserCtx} {tokens : List Token} (h : ctx.Ahead tokens)
    (hne : ctx.lexemeType ≠ .stop) : ∃ token rest, tokens = token :: rest ∧ ctx.Holds token ∧ Lexes ctx.file rest := by
  cases tokens with
  | nil => exact absurd h.1 hne
  | cons token rest => exact ⟨token, rest, rfl, h.1, h.2⟩

theorem eq_of_holds_brace {ctx : ParserCtx} {token : Token} (h : ctx.Holds token) :
    (ctx.lexemeType = .openBrace → token = .openBrace) ∧ (ctx.lexemeType = .closeBrace → token = .closeBrace) ∧
      (ctx.lexemeType = .id → token = .id ctx.lexeme) := by
  cases token with
  | id name =>
    obtain ⟨htype, hlex⟩ := h
    simp [htype, hlex]
  | openBrace =>
    have htype : ctx.lexemeType = .openBrace := h
    simp [htype]
  | closeBrace =>
    have htype : ctx.lexemeType = .closeBrace := h
    simp [htype]

/-- The text of a comment, up to the end of the line. -/
theorem comment_split (text : List Char) :
    ∃ body rest, text = body ++ rest ∧ (∀ ch ∈ body, ch ≠ '\n') ∧ ∀ ch ∈ rest.head?, ch = '\n' := by
  refine ⟨text.takeWhile (· != '\n'), text.dropWhile (· != '\n'), List.takeWhile_append_dropWhile.symm, ?_, ?_⟩
  · intro ch hch
    simpa using List.mem_takeWhile_imp hch
  · intro ch hch
    have hnot := List.head?_dropWhile_not (· != '\n') text
    rw [hch] at hnot
    simpa using hnot

/-- **The first word of the text is the next lexeme.** -/
theorem lexes_of_ahead : ∀ (n : Nat) (text : List Char) (ctx ctx' : ParserCtx) (tokens : List Token),
    text.length ≤ n → ctx.lexeme = [] → readNextLexemeLoop text .start ctx = .ok ctx' → ctx'.Ahead tokens →
    Lexes text tokens
  | _, [], ctx, ctx', tokens, _, _, h, hahead => by
    cases h
    cases tokens with
    | nil => exact .nil
    | cons token tokens =>
      have htype := hahead.1
      cases token <;> simp [Holds, finalizeLexeme] at htype
  | n + 1, ch :: text, ctx, ctx', tokens, hn, hctx, h, hahead => by
    rw [List.length_cons] at hn
    by_cases hw : isWhitespace ch = true
    · obtain ⟨ctx₁, hlex, hloop⟩ := loop_start_whitespace text ctx hw
      rw [hloop] at h
      exact .whitespace hw (lexes_of_ahead n text ctx₁ ctx' tokens (by omega) (hlex.trans hctx) h hahead)
    by_cases hhash : ch = '#'
    · subst hhash
      obtain ⟨body, rest, rfl, hbody, hend⟩ := comment_split text
      obtain ⟨ctx₁, hlex, hloop⟩ := loop_comment body rest (ctx.readNextChar (body ++ rest)) hbody hend
      rw [loop_start_hash, hloop] at h
      rw [List.length_append] at hn
      exact .comment hbody hend (lexes_of_ahead n rest ctx₁ ctx' tokens (by omega) (hlex.trans hctx) h hahead)
    by_cases hopen : ch = '{'
    · subst hopen
      obtain ⟨ctx₁, hloop, htype, hfile⟩ := loop_start_brace text (.inl ⟨rfl, rfl⟩) hctx
      rw [hloop] at h
      cases h
      obtain ⟨token, rest, rfl, hholds, hrest⟩ := eq_cons_of_ahead hahead (by rw [htype]; exact fun h => nomatch h)
      obtain rfl := (eq_of_holds_brace hholds).1 htype
      exact .openBrace (hfile ▸ hrest)
    by_cases hclose : ch = '}'
    · subst hclose
      obtain ⟨ctx₁, hloop, htype, hfile⟩ := loop_start_brace text (.inr ⟨rfl, rfl⟩) hctx
      rw [hloop] at h
      cases h
      obtain ⟨token, rest, rfl, hholds, hrest⟩ := eq_cons_of_ahead hahead (by rw [htype]; exact fun h => nomatch h)
      obtain rfl := (eq_of_holds_brace hholds).2.1 htype
      exact .closeBrace (hfile ▸ hrest)
    by_cases hid : isIdFirstChar ch = true
    · rw [loop_start_id hid hctx] at h
      obtain ⟨name, rest, rfl, hname, hend, hlen, htype, hlex, hfile⟩ := id_of_loop text _ ctx'
        (show [ch].length ≤ 99 by simp) h
      obtain ⟨token, tokens, rfl, hholds, hrest⟩ := eq_cons_of_ahead hahead (by rw [htype]; exact fun h => nomatch h)
      obtain rfl := (eq_of_holds_brace hholds).2.2 htype
      rw [hlex]
      show Lexes ((ch :: name) ++ rest) (.id (ch :: name) :: tokens)
      refine .id ⟨hid, hname⟩ ?_ hend ?_
      · rw [List.length_cons]
        simpa [Nat.add_comm] using hlen
      · rwa [hfile, lexes_afterId] at hrest
    · have hnl : ch ≠ '\n' := by
        rintro rfl
        exact hw (by decide)
      rw [readNextLexemeLoop] at h
      simp only [if_neg hhash, if_neg hnl, if_neg hopen, if_neg hclose, if_neg hw, if_neg hid] at h
      cases h

theorem lexes_readNextLexeme {ctx ctx' : ParserCtx} (h : readNextLexeme ctx = .ok ctx') {tokens : List Token}
    (hahead : ctx'.Ahead tokens) : Lexes ctx.file tokens :=
  lexes_of_ahead ctx.file.length ctx.file ctx.clearLexeme ctx' tokens (Nat.le_refl _) rfl h hahead

/-! ## The parser reads the words of a phrase -/

def lexemeTypeOf : Token → LexemeType
  | .id _ => .id
  | .openBrace => .openBrace
  | .closeBrace => .closeBrace

theorem Holds.lexemeType {ctx : ParserCtx} {token : Token} (h : ctx.Holds token) :
    ctx.lexemeType = lexemeTypeOf token := by
  cases token with
  | id name => exact h.1
  | openBrace => exact h
  | closeBrace => exact h

theorem matchLexeme_of_ahead {ctx : ParserCtx} {token : Token} {rest : List Token} (h : ctx.Ahead (token :: rest)) :
    ∃ ctx', ctx.matchLexeme (lexemeTypeOf token) = .ok ctx' ∧ ctx'.Ahead rest := by
  have htest : ctx.test (lexemeTypeOf token) = true := by
    unfold test
    rw [h.1.lexemeType, beq_self_eq_true]
  unfold matchLexeme
  rw [if_pos htest]
  exact ahead_of_lexes h.2 ctx.clearLexeme rfl

/-- A lexeme of this kind was ahead. -/
theorem ahead_of_matchLexeme {ctx ctx' : ParserCtx} {lexemeType : LexemeType}
    (h : ctx.matchLexeme lexemeType = .ok ctx') :
    ctx.lexemeType = lexemeType ∧ ∀ token rest, ctx.Holds token → ctx'.Ahead rest → ctx.Ahead (token :: rest) := by
  unfold matchLexeme at h
  split at h
  · rename_i htest
    refine ⟨by simpa [test] using htest, ?_⟩
    intro token rest hholds hrest
    exact ⟨hholds, lexes_readNextLexeme h hrest⟩
  · cases h

theorem testId_iff {ctx : ParserCtx} {s : String} : ctx.testId s = true ↔ ctx.Holds (Grammar.word s) := by
  unfold testId test Holds Grammar.word
  rw [Bool.and_eq_true, beq_iff_eq, beq_iff_eq, eq_comm (a := s.toList)]

theorem testId_eq {ctx : ParserCtx} {name : List Char} (h : ctx.Holds (.id name)) (s : String) :
    ctx.testId s = (s.toList == name) := by
  unfold testId test
  rw [h.1, h.2, beq_self_eq_true, Bool.true_and]

theorem matchId_of_ahead {ctx : ParserCtx} {s : String} {rest : List Token}
    (h : ctx.Ahead (Grammar.word s :: rest)) : ∃ ctx', ctx.matchId s = .ok ctx' ∧ ctx'.Ahead rest := by
  unfold matchId
  rw [if_pos (testId_iff.2 h.1)]
  exact matchLexeme_of_ahead h

theorem ahead_of_matchId {ctx ctx' : ParserCtx} {s : String} (h : ctx.matchId s = .ok ctx') {rest : List Token}
    (hrest : ctx'.Ahead rest) : ctx.Ahead (Grammar.word s :: rest) := by
  unfold matchId at h
  split at h
  · rename_i htest
    exact (ahead_of_matchLexeme h).2 _ _ (testId_iff.1 htest) hrest
  · cases h

/-- An identifier was ahead, and is the current lexeme. -/
theorem ahead_of_matchName {ctx ctx' : ParserCtx} (h : ctx.matchLexeme .id = .ok ctx') {rest : List Token}
    (hrest : ctx'.Ahead rest) : ctx.Ahead (.id ctx.lexeme :: rest) :=
  (ahead_of_matchLexeme h).2 _ _ ⟨(ahead_of_matchLexeme h).1, rfl⟩ hrest

theorem paramType_of_holds {ctx : ParserCtx} {type : ParamType} (h : ctx.Holds (Grammar.word (Grammar.typeWord type))) :
    ctx.paramType = .ok type := by
  unfold paramType
  simp only [testId_eq h]
  cases type <;> rfl

theorem holds_of_paramType {ctx : ParserCtx} {type : ParamType} (h : ctx.paramType = .ok type) :
    ctx.Holds (Grammar.word (Grammar.typeWord type)) := by
  unfold paramType at h
  split_ifs at h with h₁ h₂ h₃ h₄ h₅ h₆ h₇
  · cases h; exact testId_iff.1 h₁
  · cases h; exact testId_iff.1 h₂
  · cases h; exact testId_iff.1 h₃
  · cases h; exact testId_iff.1 h₄
  · cases h; exact testId_iff.1 h₅
  · cases h; exact testId_iff.1 h₆
  · cases h; exact testId_iff.1 h₇

/-- **What it means to parse a kind of phrase**: the function succeeds exactly on the words of a phrase, returns its
meaning, and stops behind it. -/
structure Parses {α : Type} (f : ParserCtx → Except Exit (α × ParserCtx)) (X : List Token → α → Prop) : Prop where
  sound : ∀ {ctx ctx' a}, f ctx = .ok (a, ctx') →
    ∃ tokens, X tokens a ∧ ∀ rest, ctx'.Ahead rest → ctx.Ahead (tokens ++ rest)
  complete : ∀ {ctx tokens a rest}, X tokens a → ctx.Ahead (tokens ++ rest) →
    ∃ ctx', f ctx = .ok (a, ctx') ∧ ctx'.Ahead rest

/-- The end of a parameter: its type and its name. -/
theorem matchParam_eq {ctx ctx₁ : ParserCtx} {paramsType : ParamsType} {isKey : Bool}
    (hkey : ctx.matchKey paramsType = .ok (isKey, ctx₁)) {type : ParamType} {name : List Char} {rest : List Token}
    (h : ctx₁.Ahead (Grammar.word (Grammar.typeWord type) :: .id name :: rest)) :
    ∃ ctx', ctx.matchParam paramsType = .ok (⟨type, isKey, name⟩, ctx') ∧ ctx'.Ahead rest := by
  obtain ⟨ctx₂, h₂, hahead₂⟩ := matchLexeme_of_ahead h
  obtain ⟨ctx₃, h₃, hahead₃⟩ := matchLexeme_of_ahead hahead₂
  refine ⟨ctx₃, ?_, hahead₃⟩
  unfold matchParam
  rw [hkey, ok_bind]
  dsimp only
  rw [paramType_of_holds h.1, ok_bind, show ctx₁.matchLexeme .id = .ok ctx₂ from h₂, ok_bind,
    show ctx₂.matchLexeme .id = .ok ctx₃ from h₃, ok_bind, hahead₂.1.2]

theorem parses_matchParam (paramsType : ParamsType) :
    Parses (fun ctx => ctx.matchParam paramsType) (Grammar.Param paramsType) := by
  constructor
  · intro ctx ctx' param h
    unfold matchParam at h
    obtain ⟨⟨isKey, ctx₁⟩, h₁, h⟩ := bind_eq_ok h
    obtain ⟨type, htype, h⟩ := bind_eq_ok h
    obtain ⟨ctx₂, h₂, h⟩ := bind_eq_ok h
    obtain ⟨ctx₃, h₃, h⟩ := bind_eq_ok h
    cases h
    have hparam : ∀ rest, ctx'.Ahead rest →
        ctx₁.Ahead (Grammar.word (Grammar.typeWord type) :: .id ctx₂.lexeme :: rest) := fun rest hrest =>
      (ahead_of_matchLexeme h₂).2 _ _ (holds_of_paramType htype) (ahead_of_matchName h₃ hrest)
    unfold matchKey at h₁
    split at h₁
    · rename_i hkey
      obtain ⟨ctx₀, h₀, h₁⟩ := bind_eq_ok h₁
      cases h₁
      rw [Bool.and_eq_true, beq_iff_eq] at hkey
      obtain ⟨rfl, hkey⟩ := hkey
      refine ⟨_, .key type ctx₂.lexeme, ?_⟩
      intro rest hrest
      exact (ahead_of_matchLexeme h₀).2 _ _ (testId_iff.1 hkey) (hparam rest hrest)
    · cases h₁
      exact ⟨_, .plain paramsType type ctx₂.lexeme, hparam⟩
  · intro ctx tokens param rest hX hahead
    cases hX with
    | plain _ type name =>
      apply matchParam_eq _ hahead
      unfold matchKey
      rw [if_neg]
      rw [testId_eq hahead.1]
      cases type <;> simp [Grammar.typeWord]
    | key type name =>
      obtain ⟨ctx₁, h₁, hahead₁⟩ := matchLexeme_of_ahead hahead
      apply matchParam_eq _ hahead₁
      unfold matchKey
      rw [testId_iff.2 hahead.1, if_pos (by rfl), show ctx.matchLexeme .id = .ok ctx₁ from h₁]
      rfl

/-! ## Sequences of phrases -/

section Loop

variable {α : Type} {f : ParserCtx → Except Exit (α × ParserCtx)} {X : List Token → α → Prop}
  {loop : ParserCtx → Except Exit (List α × ParserCtx)} {more : ParserCtx → Bool}

theorem sequence_of_loop (hf : Parses f X)
    (heq : ∀ ctx, loop ctx = if more ctx then f ctx >>= fun (a, ctx₁) =>
      loop ctx₁ >>= fun (as, ctx₂) => .ok (a :: as, ctx₂) else .ok ([], ctx)) :
    ∀ (as : List α) {ctx ctx' : ParserCtx}, loop ctx = .ok (as, ctx') →
      ∃ tokens, Grammar.Sequence X tokens as ∧ ∀ rest, ctx'.Ahead rest → ctx.Ahead (tokens ++ rest)
  | [], ctx, ctx', h => by
    rw [heq] at h
    split at h
    · obtain ⟨⟨a, ctx₁⟩, -, h⟩ := bind_eq_ok h
      obtain ⟨⟨as, ctx₂⟩, -, h⟩ := bind_eq_ok h
      cases h
    · cases h
      exact ⟨[], .nil, fun rest hrest => hrest⟩
  | a :: as, ctx, ctx', h => by
    rw [heq] at h
    split at h
    · obtain ⟨⟨a, ctx₁⟩, h₁, h⟩ := bind_eq_ok h
      obtain ⟨⟨as, ctx₂⟩, h₂, h⟩ := bind_eq_ok h
      cases h
      obtain ⟨first, hfirst, hahead₁⟩ := hf.sound h₁
      obtain ⟨tokens, htokens, hahead₂⟩ := sequence_of_loop hf heq as h₂
      refine ⟨first ++ tokens, .cons hfirst htokens, ?_⟩
      intro rest hrest
      rw [List.append_assoc]
      exact hahead₁ _ (hahead₂ rest hrest)
    · cases h

/-- The loop reads the sequence in front of a closing brace. -/
theorem loop_of_sequence (hf : Parses f X)
    (heq : ∀ ctx, loop ctx = if more ctx then f ctx >>= fun (a, ctx₁) =>
      loop ctx₁ >>= fun (as, ctx₂) => .ok (a :: as, ctx₂) else .ok ([], ctx))
    (hmore : ∀ {ctx tokens a rest}, X tokens a → ctx.Ahead (tokens ++ rest) → more ctx = true)
    (hstop : ∀ {ctx rest}, ctx.Ahead (.closeBrace :: rest) → more ctx = false)
    {tokens : List Token} {as : List α} (h : Grammar.Sequence X tokens as) {rest : List Token} {ctx : ParserCtx}
    (hahead : ctx.Ahead (tokens ++ .closeBrace :: rest)) :
    ∃ ctx', loop ctx = .ok (as, ctx') ∧ ctx'.Ahead (.closeBrace :: rest) := by
  induction h generalizing ctx with
  | nil =>
    refine ⟨ctx, ?_, hahead⟩
    rw [heq, hstop hahead]
    rfl
  | cons ha _ ih =>
    rw [List.append_assoc] at hahead
    obtain ⟨ctx₁, h₁, hahead₁⟩ := hf.complete ha hahead
    obtain ⟨ctx₂, h₂, hahead₂⟩ := ih hahead₁
    refine ⟨ctx₂, ?_, hahead₂⟩
    rw [heq, hmore ha hahead, if_pos rfl, h₁, ok_bind]
    dsimp only
    rw [h₂, ok_bind]

end Loop

theorem not_closeBrace_of_param {paramsType : ParamsType} {ctx : ParserCtx} {tokens rest : List Token} {param : Param}
    (h : Grammar.Param paramsType tokens param) (hahead : ctx.Ahead (tokens ++ rest)) :
    (!ctx.test .closeBrace) = true := by
  have htype : ctx.lexemeType = .id := by
    cases h with
    | plain _ type name => exact hahead.1.1
    | key type name => exact hahead.1.1
  simp [test, htype]

theorem closeBrace_of_ahead {ctx : ParserCtx} {rest : List Token} (h : ctx.Ahead (.closeBrace :: rest)) :
    (!ctx.test .closeBrace) = false := by
  have htype : ctx.lexemeType = .closeBrace := h.1
  simp [test, htype]

theorem paramsLoop_eq (paramsType : ParamsType) (ctx : ParserCtx) :
    ctx.matchParamsLoop paramsType
      = if !ctx.test .closeBrace then ctx.matchParam paramsType >>= fun (param, ctx₁) =>
          ctx₁.matchParamsLoop paramsType >>= fun (params, ctx₂) => .ok (param :: params, ctx₂)
        else .ok ([], ctx) := by
  rw [matchParamsLoop_eq]
  cases ctx.test .closeBrace <;> rfl

theorem parses_matchParams (paramsType : ParamsType) :
    Parses (fun ctx => ctx.matchParams paramsType) (Grammar.Params paramsType) := by
  constructor
  · intro ctx ctx' params h
    unfold matchParams at h
    obtain ⟨ctx₁, h₁, h⟩ := bind_eq_ok h
    obtain ⟨ctx₂, h₂, h⟩ := bind_eq_ok h
    obtain ⟨⟨params, ctx₃⟩, h₃, h⟩ := bind_eq_ok h
    obtain ⟨ctx₄, h₄, h⟩ := bind_eq_ok h
    cases h
    obtain ⟨tokens, htokens, hahead⟩ :=
      sequence_of_loop (parses_matchParam paramsType) (paramsLoop_eq paramsType) params h₃
    refine ⟨_, .mk htokens, ?_⟩
    intro rest hrest
    have hclose := (ahead_of_matchLexeme h₄).2 .closeBrace rest (ahead_of_matchLexeme h₄).1 hrest
    have hopen := (ahead_of_matchLexeme h₂).2 .openBrace _ (ahead_of_matchLexeme h₂).1 (hahead _ hclose)
    have hall := ahead_of_matchId h₁ hopen
    simpa [Grammar.paramsWord] using hall
  · intro ctx tokens params rest hX hahead
    cases hX with
    | @mk tokens _ htokens =>
      obtain ⟨ctx₁, h₁, hahead₁⟩ := matchId_of_ahead hahead
      obtain ⟨ctx₂, h₂, hahead₂⟩ := matchLexeme_of_ahead hahead₁
      rw [List.append_eq, List.append_assoc] at hahead₂
      obtain ⟨ctx₃, h₃, hahead₃⟩ := loop_of_sequence (parses_matchParam paramsType) (paramsLoop_eq paramsType)
        not_closeBrace_of_param closeBrace_of_ahead htokens hahead₂
      obtain ⟨ctx₄, h₄, hahead₄⟩ := matchLexeme_of_ahead hahead₃
      refine ⟨ctx₄, ?_, hahead₄⟩
      unfold matchParams
      rw [show ctx.matchId (if paramsType = .request then "request" else "response") = .ok ctx₁ from h₁, ok_bind,
        show ctx₁.matchLexeme .openBrace = .ok ctx₂ from h₂, ok_bind, h₃, ok_bind]
      dsimp only
      rw [show ctx₃.matchLexeme .closeBrace = .ok ctx₄ from h₄, ok_bind]

theorem parses_matchMethod : Parses matchMethod Grammar.Method := by
  constructor
  · intro ctx ctx' method h
    unfold matchMethod at h
    obtain ⟨ctx₁, h₁, h⟩ := bind_eq_ok h
    obtain ⟨ctx₂, h₂, h⟩ := bind_eq_ok h
    obtain ⟨ctx₃, h₃, h⟩ := bind_eq_ok h
    obtain ⟨⟨requestParams, ctx₄⟩, h₄, h⟩ := bind_eq_ok h
    obtain ⟨⟨responseParams, ctx₅⟩, h₅, h⟩ := bind_eq_ok h
    obtain ⟨ctx₆, h₆, h⟩ := bind_eq_ok h
    cases h
    obtain ⟨request, hrequest, hahead₄⟩ := (parses_matchParams .request).sound h₄
    obtain ⟨response, hresponse, hahead₅⟩ := (parses_matchParams .response).sound h₅
    refine ⟨_, .mk ctx₁.lexeme hrequest hresponse, ?_⟩
    intro rest hrest
    have hclose := (ahead_of_matchLexeme h₆).2 .closeBrace rest (ahead_of_matchLexeme h₆).1 hrest
    have hopen := (ahead_of_matchLexeme h₃).2 .openBrace _ (ahead_of_matchLexeme h₃).1
      (hahead₄ _ (hahead₅ _ hclose))
    have hall := ahead_of_matchId h₁ (ahead_of_matchName h₂ hopen)
    simpa using hall
  · intro ctx tokens method rest hX hahead
    cases hX with
    | @mk request response requestParams responseParams name hrequest hresponse =>
      obtain ⟨ctx₁, h₁, hahead₁⟩ := matchId_of_ahead hahead
      obtain ⟨ctx₂, h₂, hahead₂⟩ := matchLexeme_of_ahead hahead₁
      obtain ⟨ctx₃, h₃, hahead₃⟩ := matchLexeme_of_ahead hahead₂
      rw [List.append_eq, List.append_assoc, List.append_assoc] at hahead₃
      obtain ⟨ctx₄, h₄, hahead₄⟩ := (parses_matchParams .request).complete hrequest hahead₃
      obtain ⟨ctx₅, h₅, hahead₅⟩ := (parses_matchParams .response).complete hresponse hahead₄
      obtain ⟨ctx₆, h₆, hahead₆⟩ := matchLexeme_of_ahead hahead₅
      refine ⟨ctx₆, ?_, hahead₆⟩
      unfold matchMethod
      rw [h₁, ok_bind]
      dsimp only
      rw [show ctx₁.matchLexeme .id = .ok ctx₂ from h₂, ok_bind,
        show ctx₂.matchLexeme .openBrace = .ok ctx₃ from h₃, ok_bind, h₄, ok_bind]
      dsimp only
      rw [h₅, ok_bind]
      dsimp only
      rw [show ctx₅.matchLexeme .closeBrace = .ok ctx₆ from h₆, ok_bind, hahead₁.1.2]

theorem method_of_ahead {ctx : ParserCtx} {tokens rest : List Token} {method : Method}
    (h : Grammar.Method tokens method) (hahead : ctx.Ahead (tokens ++ rest)) : ctx.testId "method" = true := by
  cases h with
  | mk name hrequest hresponse => exact testId_iff.2 hahead.1

theorem not_method_of_ahead {ctx : ParserCtx} {rest : List Token} (h : ctx.Ahead (.closeBrace :: rest)) :
    ctx.testId "method" = false := by
  have htype : ctx.lexemeType = .closeBrace := h.1
  simp [testId, test, htype]

theorem parses_matchMethods {ctx ctx' : ParserCtx} {methods : List Method} (h : ctx.matchMethods = .ok (methods, ctx')) :
    ∃ first rest method others, Grammar.Method first method ∧ Grammar.Sequence Grammar.Method rest others ∧
      methods = method :: others ∧ ∀ tokens, ctx'.Ahead tokens → ctx.Ahead (first ++ (rest ++ tokens)) := by
  unfold matchMethods at h
  obtain ⟨⟨method, ctx₁⟩, h₁, h⟩ := bind_eq_ok h
  obtain ⟨⟨others, ctx₂⟩, h₂, h⟩ := bind_eq_ok h
  cases h
  obtain ⟨first, hfirst, hahead₁⟩ := parses_matchMethod.sound h₁
  obtain ⟨rest, hrest, hahead₂⟩ := sequence_of_loop parses_matchMethod matchMethodsLoop_eq others h₂
  exact ⟨first, rest, method, others, hfirst, hrest, rfl, fun tokens htokens => hahead₁ _ (hahead₂ _ htokens)⟩

theorem matchMethods_of_ahead {ctx : ParserCtx} {first rest tokens : List Token} {method : Method}
    {others : List Method} (hfirst : Grammar.Method first method)
    (hrest : Grammar.Sequence Grammar.Method rest others)
    (hahead : ctx.Ahead (first ++ (rest ++ .closeBrace :: tokens))) :
    ∃ ctx', ctx.matchMethods = .ok (method :: others, ctx') ∧ ctx'.Ahead (.closeBrace :: tokens) := by
  obtain ⟨ctx₁, h₁, hahead₁⟩ := parses_matchMethod.complete hfirst hahead
  obtain ⟨ctx₂, h₂, hahead₂⟩ := loop_of_sequence parses_matchMethod matchMethodsLoop_eq method_of_ahead
    not_method_of_ahead hrest hahead₁
  refine ⟨ctx₂, ?_, hahead₂⟩
  unfold matchMethods
  rw [h₁, ok_bind]
  dsimp only
  rw [h₂, ok_bind]

/-- **The whole file.** -/
theorem matchInterface_iff {ctx : ParserCtx} (hstart : ctx.lexemeType = .start) (interface : Interface) :
    ctx.matchInterface = .ok interface ↔ ∃ tokens, Lexes ctx.file tokens ∧ Grammar.Interface tokens interface := by
  have hmatch : ctx.matchLexeme .start = readNextLexeme ctx := by
    unfold matchLexeme test
    rw [hstart]
    rfl
  constructor
  · intro h
    unfold matchInterface at h
    obtain ⟨ctx₁, h₁, h⟩ := bind_eq_ok h
    obtain ⟨ctx₂, h₂, h⟩ := bind_eq_ok h
    obtain ⟨ctx₃, h₃, h⟩ := bind_eq_ok h
    obtain ⟨ctx₄, h₄, h⟩ := bind_eq_ok h
    obtain ⟨⟨methods, ctx₅⟩, h₅, h⟩ := bind_eq_ok h
    obtain ⟨ctx₆, h₆, h⟩ := bind_eq_ok h
    obtain ⟨ctx₇, h₇, h⟩ := bind_eq_ok h
    cases h
    obtain ⟨first, rest, method, others, hfirst, hrest, rfl, hahead⟩ := parses_matchMethods h₅
    have hstop : ctx₆.Ahead [] := by
      have htype := (ahead_of_matchLexeme h₇).1
      refine ⟨htype, ?_⟩
      unfold matchLexeme at h₆
      split at h₆
      · rw [file_of_stop _ _ _ _ h₆ htype]
        exact .nil
      · cases h₆
    have hclose := (ahead_of_matchLexeme h₆).2 .closeBrace [] (ahead_of_matchLexeme h₆).1 hstop
    have hopen := (ahead_of_matchLexeme h₄).2 .openBrace _ (ahead_of_matchLexeme h₄).1 (hahead _ hclose)
    rw [hmatch] at h₁
    exact ⟨_, lexes_readNextLexeme h₁ (ahead_of_matchId h₂ (ahead_of_matchName h₃ hopen)),
      .mk ctx₂.lexeme hfirst hrest⟩
  · rintro ⟨tokens, hlexes, hX⟩
    cases hX with
    | @mk first rest method methods name hfirst hrest =>
      obtain ⟨ctx₁, h₁, hahead₁⟩ := ahead_of_lexes hlexes ctx.clearLexeme rfl
      obtain ⟨ctx₂, h₂, hahead₂⟩ := matchId_of_ahead hahead₁
      obtain ⟨ctx₃, h₃, hahead₃⟩ := matchLexeme_of_ahead hahead₂
      obtain ⟨ctx₄, h₄, hahead₄⟩ := matchLexeme_of_ahead hahead₃
      obtain ⟨ctx₅, h₅, hahead₅⟩ := matchMethods_of_ahead hfirst hrest hahead₄
      obtain ⟨ctx₆, h₆, hahead₆⟩ := matchLexeme_of_ahead hahead₅
      obtain ⟨ctx₇, h₇, -⟩ := ahead_of_lexes hahead₆.2 ctx₆.clearLexeme rfl
      have hlast : ctx₆.matchLexeme .stop = .ok ctx₇ := by
        unfold matchLexeme test
        rw [hahead₆.1]
        exact h₇
      unfold matchInterface
      rw [hmatch, show readNextLexeme ctx = .ok ctx₁ from h₁, ok_bind, h₂, ok_bind]
      dsimp only
      rw [show ctx₂.matchLexeme .id = .ok ctx₃ from h₃, ok_bind,
        show ctx₃.matchLexeme .openBrace = .ok ctx₄ from h₄, ok_bind, h₅, ok_bind]
      dsimp only
      rw [show ctx₅.matchLexeme .closeBrace = .ok ctx₆ from h₆, ok_bind, hlast, ok_bind, hahead₂.1.2]

/-! ## Every other text ends in `die` -/

/-- The only way to end without a result is `die`. -/
def Dies {α : Type} (x : Except Exit α) : Prop := ∀ e, x = .error e → ∃ message, e = .die message

theorem dies_ok {α : Type} (a : α) : Dies (.ok a) := fun _ h => nomatch h

theorem dies_die {α : Type} (message : String) : Dies (.error (.die message) : Except Exit α) := by
  intro e h
  cases h
  exact ⟨message, rfl⟩

theorem Dies.bind {α β : Type} {x : Except Exit α} {f : α → Except Exit β} (hx : Dies x) (hf : ∀ a, Dies (f a)) :
    Dies (x >>= f) := by
  cases x with
  | error e =>
    obtain ⟨message, rfl⟩ := hx e rfl
    exact dies_die message
  | ok a => exact hf a

theorem dies_appendToLexeme (ctx : ParserCtx) (ch : Char) : Dies (ctx.appendToLexeme ch) := by
  unfold appendToLexeme
  split
  · exact dies_die _
  · exact dies_ok _

/-- A character that is unread is no more than 127. -/
theorem dies_unreadChar (ctx : ParserCtx) {ch : Char} (h : ch.toNat < 128) : Dies (ctx.unreadChar ch) := by
  unfold unreadChar
  rw [if_pos h]
  exact dies_ok _

theorem dies_loop : ∀ (file : List Char) (state : LexerState) (ctx : ParserCtx),
    Dies (readNextLexemeLoop file state ctx)
  | [], state, ctx => by
    cases state <;> exact dies_ok _
  | ch :: file, state, ctx => by
    have hunread : ch.toNat < 128 →
        Dies ((ctx.readNextChar file).unreadChar ch >>= fun ctx => .ok (ctx.finalizeLexeme .id)) := fun hch =>
      (dies_unreadChar _ hch).bind (fun _ => dies_ok _)
    have hidChar := (dies_appendToLexeme (ctx.readNextChar file) ch).bind (fun ctx => dies_loop file .inId ctx)
    cases state with
    | start =>
      rw [readNextLexemeLoop]
      dsimp only
      split_ifs
      · exact dies_loop file _ _
      · exact dies_loop file _ _
      · exact (dies_appendToLexeme _ _).bind (fun _ => dies_ok _)
      · exact (dies_appendToLexeme _ _).bind (fun _ => dies_ok _)
      · exact dies_loop file _ _
      · cases hx : (ctx.readNextChar file).appendToLexeme ch <;> rw [hx] at hidChar <;> exact hidChar
      · exact dies_die _
    | inComment =>
      rw [readNextLexemeLoop]
      dsimp only
      split_ifs <;> exact dies_loop file _ _
    | inId =>
      rw [readNextLexemeLoop]
      dsimp only
      split_ifs with hhash _ hopen hclose
      · exact hunread (by subst hhash; decide)
      · exact dies_ok _
      · exact hunread (by subst hopen; decide)
      · exact hunread (by subst hclose; decide)
      · exact dies_ok _
      · cases hx : (ctx.readNextChar file).appendToLexeme ch <;> rw [hx] at hidChar <;> exact hidChar
      · exact dies_die _

theorem dies_matchLexeme (ctx : ParserCtx) (lexemeType : LexemeType) : Dies (ctx.matchLexeme lexemeType) := by
  unfold matchLexeme
  split
  · exact dies_loop _ _ _
  · exact dies_die _

theorem dies_matchId (ctx : ParserCtx) (s : String) : Dies (ctx.matchId s) := by
  unfold matchId
  split
  · exact dies_matchLexeme ctx .id
  · exact dies_die _

theorem dies_matchParam (ctx : ParserCtx) (paramsType : ParamsType) : Dies (ctx.matchParam paramsType) := by
  have hkey : Dies (ctx.matchKey paramsType) := by
    unfold matchKey
    split
    · exact (dies_matchLexeme ctx .id).bind (fun _ => dies_ok _)
    · exact dies_ok _
  have htype : ∀ ctx : ParserCtx, Dies ctx.paramType := by
    intro ctx
    unfold paramType
    split_ifs <;> first | exact dies_ok _ | exact dies_die _
  unfold matchParam
  exact hkey.bind fun (_, ctx) => (htype ctx).bind fun _ =>
    (dies_matchLexeme _ _).bind fun _ => (dies_matchLexeme _ _).bind fun _ => dies_ok _

/-- A loop over phrases dies where a phrase does. -/
theorem dies_loop_of {α : Type} {f : ParserCtx → Except Exit (α × ParserCtx)}
    {loop : ParserCtx → Except Exit (List α × ParserCtx)} {more : ParserCtx → Bool} (hf : ∀ ctx, Dies (f ctx))
    (hleft : ∀ {ctx a ctx'}, f ctx = .ok (a, ctx') → ctx'.left < ctx.left)
    (heq : ∀ ctx, loop ctx = if more ctx then f ctx >>= fun (a, ctx₁) =>
      loop ctx₁ >>= fun (as, ctx₂) => .ok (a :: as, ctx₂) else .ok ([], ctx)) :
    ∀ ctx : ParserCtx, Dies (loop ctx) := by
  intro ctx
  induction hn : ctx.left using Nat.strong_induction_on generalizing ctx with
  | _ n ih =>
    rw [heq]
    split
    · rcases hx : f ctx with e | ⟨a, ctx₁⟩
      · obtain ⟨message, rfl⟩ := hf ctx e hx
        exact dies_die message
      · exact (ih ctx₁.left (hn ▸ hleft hx) ctx₁ rfl).bind (fun _ => dies_ok _)
    · exact dies_ok _

theorem dies_matchParams (ctx : ParserCtx) (paramsType : ParamsType) : Dies (ctx.matchParams paramsType) := by
  unfold matchParams
  exact (dies_matchId _ _).bind fun _ => (dies_matchLexeme _ _).bind fun _ =>
    (dies_loop_of (fun ctx => dies_matchParam ctx paramsType) left_matchParam (paramsLoop_eq paramsType) _).bind
      fun _ => (dies_matchLexeme _ _).bind fun _ => dies_ok _

theorem dies_matchMethod (ctx : ParserCtx) : Dies ctx.matchMethod := by
  unfold matchMethod
  exact (dies_matchId _ _).bind fun _ => (dies_matchLexeme _ _).bind fun _ => (dies_matchLexeme _ _).bind fun _ =>
    (dies_matchParams _ _).bind fun _ => (dies_matchParams _ _).bind fun _ =>
      (dies_matchLexeme _ _).bind fun _ => dies_ok _

theorem dies_matchInterface (ctx : ParserCtx) : Dies ctx.matchInterface := by
  have hmethods : ∀ ctx : ParserCtx, Dies ctx.matchMethods := fun ctx =>
    (dies_matchMethod ctx).bind fun _ =>
      (dies_loop_of dies_matchMethod left_matchMethod matchMethodsLoop_eq _).bind fun _ => dies_ok _
  unfold matchInterface
  exact (dies_matchLexeme _ _).bind fun _ => (dies_matchId _ _).bind fun _ => (dies_matchLexeme _ _).bind fun _ =>
    (dies_matchLexeme _ _).bind fun _ => (hmethods _).bind fun _ => (dies_matchLexeme _ _).bind fun _ =>
      (dies_matchLexeme _ _).bind fun _ => dies_ok _

end ParserCtx

/-- The text is an interface with this syntax tree. -/
def IsInterfaceText (text : List Char) (interface : Interface) : Prop :=
  ∃ tokens, Lexes text tokens ∧ Grammar.Interface tokens interface

/-- **The parser accepts exactly its grammar**, and dies on every other text. -/
theorem parseInterface_exact (filename : String) (text : List Char) :
    (∀ interface, parseInterface filename text = .ok interface ↔ IsInterfaceText text interface) ∧
      ((¬ ∃ interface, IsInterfaceText text interface) →
        ∃ message, parseInterface filename text = .error (.die message)) := by
  have hiff : ∀ interface, parseInterface filename text = .ok interface ↔ IsInterfaceText text interface :=
    fun interface => ParserCtx.matchInterface_iff rfl interface
  refine ⟨hiff, ?_⟩
  intro hnone
  cases h : parseInterface filename text with
  | ok interface => exact absurd ⟨interface, (hiff interface).1 h⟩ hnone
  | error e =>
    obtain ⟨message, rfl⟩ := ParserCtx.dies_matchInterface _ e h
    exact ⟨message, rfl⟩

end Mrpc
