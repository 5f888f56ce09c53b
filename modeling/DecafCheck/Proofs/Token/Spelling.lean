import DecafCheck.Program.Printer
import DecafCheck.Proofs.Token.Tiling

namespace DecafCheck

open Lexer

theorem Mark.spelling_injective {m m' : Mark} (h : m.spelling.toList = m'.spelling.toList) :
    m = m' := by
  rcases m.spelling_cases with ⟨c, hc, hm⟩ | ⟨c, d, hc, hm⟩ <;>
    rcases m'.spelling_cases with ⟨c', hc', hm'⟩ | ⟨c', d', hc', hm'⟩ <;>
    rw [hc, hc'] at h <;> cases h
  · exact Option.some.inj (hm.symm.trans hm')
  · exact Option.some.inj (hm.symm.trans hm')

namespace Token

variable {t t' : Token} {c : Char} {cs sep : List Char}

/-- A token that its own spelling is scanned as. -/
def Genuine (t : Token) : Prop :=
  t.Written t.spelling.toList ∧ ∀ k : Keyword, (Token.keyword k).Written t.spelling.toList →
    t = .keyword k

/-- The characters that a token may begin with. -/
def Leads (c : Char) : Token → Prop
  | .keyword _ => isLetter c = true
  | .identifier _ => isLetter c = true
  | .integer _ => Integer.isDigit c = true
  | .mark _ => isBlank c = false ∧ isLetter c = false ∧ Integer.isDigit c = false

def AllGenuine (ts : List Token) : Prop :=
  ∀ t ∈ ts, t.Genuine

@[simp] theorem allGenuine_nil : AllGenuine [] :=
  List.forall_mem_nil _

@[simp] theorem allGenuine_cons {ts : List Token} :
    AllGenuine (t :: ts) ↔ t.Genuine ∧ AllGenuine ts :=
  List.forall_mem_cons

@[simp] theorem allGenuine_append {ts us : List Token} :
    AllGenuine (ts ++ us) ↔ AllGenuine ts ∧ AllGenuine us :=
  List.forall_mem_append

theorem Written.spelling (h : t.Written cs) : t.spelling.toList = cs := by
  cases h with
  | keyword | mark => rfl
  | identifier | decimal | hex => exact String.toList_ofList

theorem Written.leads (h : t.Written (c :: cs)) : t.Leads c := by
  generalize hcs : c :: cs = ds at h
  cases h with
  | keyword k =>
    obtain ⟨d, es, hk, hd, -⟩ := k.spelling_class
    obtain ⟨rfl, -⟩ := List.cons.inj (hcs.trans hk)
    exact hd
  | identifier hd =>
    obtain ⟨rfl, -⟩ := List.cons.inj hcs
    exact hd
  | decimal hds =>
    obtain ⟨rfl, -⟩ := List.cons.inj hcs
    exact hds c List.mem_cons_self
  | hex =>
    obtain ⟨rfl, -⟩ := List.cons.inj hcs
    rfl
  | mark m =>
    obtain ⟨d, es, hm, hd⟩ := m.first_class
    obtain ⟨rfl, -⟩ := List.cons.inj (hcs.trans hm)
    exact hd

theorem Leads.not_isBlank (h : t.Leads c) : isBlank c = false := by
  rw [← Bool.not_eq_true]
  intro hc
  cases t with
  | keyword | identifier => exact absurd h (by simp [Leads, isLetter_of_isBlank hc])
  | integer => exact absurd h (by simp [Leads, isDigit_of_isBlank hc])
  | mark => exact absurd h.1 (by simp [hc])

theorem Written.not_isBlank (h : t.Written cs) : ∀ d ∈ cs, isBlank d = false := by
  have hletter {d : Char} (hd : isLetter d = true) : isBlank d = false :=
    isBlank_of_isWordChar (by rw [isWordChar, hd, Bool.true_or])
  have hdigit {d : Char} (hd : Integer.isHexDigit d = true) : isBlank d = false :=
    isBlank_of_isWordChar (isWordChar_of_isHexDigit hd)
  cases h with
  | keyword k =>
    obtain ⟨c, cs, hk, hc, hcs⟩ := k.spelling_class
    rw [hk]
    exact List.forall_mem_cons.mpr ⟨hletter hc, fun d hd => isBlank_of_isWordChar (hcs d hd)⟩
  | mark m =>
    have hnone : m.spelling.toList.any isBlank = false := by cases m <;> rfl
    exact fun d hd => Bool.eq_false_iff.mpr (List.any_eq_false.mp hnone d hd)
  | identifier hc hcs =>
    exact List.forall_mem_cons.mpr ⟨hletter hc, fun d hd => isBlank_of_isWordChar (hcs d hd)⟩
  | decimal hcs => exact fun d hd => hdigit (by rw [Integer.isHexDigit, hcs d hd]; rfl)
  | hex hx hcs =>
    refine List.forall_mem_cons.mpr ⟨rfl,
      List.forall_mem_cons.mpr ⟨?_, fun d hd => hdigit (hcs d hd)⟩⟩
    rcases hx with rfl | rfl <;> rfl

theorem Genuine.exists_cons (h : t.Genuine) : ∃ c cs, t.spelling.toList = c :: cs := by
  apply List.exists_cons_of_ne_nil
  intro hnil
  exact not_fits_nil (.inl ⟨t, hnil ▸ h.1⟩)

/-- Spellings tell genuine tokens apart. -/
theorem Genuine.unique (h : t.Genuine) (h' : t'.Genuine)
    (hs : t.spelling.toList = t'.spelling.toList) : t = t' := by
  obtain ⟨c, cs, hcs⟩ := h.exists_cons
  have ht : t.Leads c := (hcs ▸ h.1).leads
  have ht' : t'.Leads c := (hs.symm.trans hcs ▸ h'.1).leads
  -- Keywords come first; the other kinds differ in their first characters.
  cases t with
  | keyword k => exact (h'.2 k (hs ▸ h.1)).symm
  | identifier name =>
    cases t' with
    | keyword k => exact h.2 k (hs ▸ h'.1)
    | identifier name' => exact congrArg _ (String.toList_inj.mp hs)
    | integer => exact absurd ht' (by simp [Leads, isDigit_of_isLetter ht])
    | mark => exact absurd ht'.2.1 (by simp [show isLetter c = true from ht])
  | integer spelling =>
    cases t' with
    | keyword k => exact h.2 k (hs ▸ h'.1)
    | identifier => exact absurd ht (by simp [Leads, isDigit_of_isLetter ht'])
    | integer spelling' => exact congrArg _ (String.toList_inj.mp hs)
    | mark => exact absurd ht'.2.2 (by simp [show Integer.isDigit c = true from ht])
  | mark m =>
    cases t' with
    | keyword k => exact h.2 k (hs ▸ h'.1)
    | identifier => exact absurd ht.2.1 (by simp [show isLetter c = true from ht'])
    | integer => exact absurd ht.2.2 (by simp [show Integer.isDigit c = true from ht'])
    | mark m' => exact congrArg _ (Mark.spelling_injective hs)

theorem Written.genuine (h : t.Written cs)
    (hk : ∀ k : Keyword, (Token.keyword k).Written cs → t = .keyword k) :
    t.Genuine := by
  rw [Genuine, h.spelling]
  exact ⟨h, hk⟩

/-- No comment begins with a token that has a blank behind it. -/
theorem Written.not_comment {body : List Char} (h : t.Written ('/' :: cs))
    (hsep : ∀ d ∈ sep.head?, d = ' ') :
    cs ++ sep ≠ '/' :: body := by
  intro hcs
  have hleads : t.Leads '/' := h.leads
  cases t with
  | keyword | identifier | integer => exact absurd hleads Bool.false_ne_true
  | mark m =>
    obtain rfl : cs = [] := Mark.slash_alone h.spelling
    exact absurd (hsep '/' (by simp_all)) (by decide)

/-- The piece at the head of a genuine token before a blank is this token. -/
theorem Genuine.piece (h : t.Genuine) (hs : t.spelling.toList = c :: cs)
    (hsep : ∀ d ∈ sep.head?, d = ' ') :
    (piece c (cs ++ sep)).1 = .token t ∧ (cs ++ sep).take (piece c (cs ++ sep)).2 = cs ∧
      (cs ++ sep).drop (piece c (cs ++ sep)).2 = sep := by
  have hwritten : t.Written (c :: cs) := hs ▸ h.1
  have hfits : Fits (c :: cs) := .inl ⟨t, hwritten⟩
  have hcuts := piece_cuts c (cs ++ sep)
  have hsplit := List.take_append_drop (Lexer.piece c (cs ++ sep)).2 (cs ++ sep)
  generalize (cs ++ sep).take (Lexer.piece c (cs ++ sep)).2 = head at hcuts hsplit ⊢
  generalize (cs ++ sep).drop (Lexer.piece c (cs ++ sep)).2 = rest at hcuts hsplit ⊢
  have hhead : c :: cs <+: c :: head ++ rest :=
    ⟨sep, by rw [List.cons_append, List.cons_append, hsplit]⟩
  cases hfound : (Lexer.piece c (cs ++ sep)).1 with
  | invalid =>
    rw [hfound] at hcuts
    exact absurd hhead (hcuts.2 _ hfits)
  | blank =>
    obtain ⟨hskipped, -⟩ := hfound ▸ hcuts
    generalize hds : c :: head = ds at hskipped
    cases hskipped with
    | blanks hblank =>
      have hc : isBlank c = true := hblank c (hds ▸ List.mem_cons_self)
      exact absurd hc (by simp [hwritten.leads.not_isBlank])
    | comment =>
      obtain ⟨rfl, rfl⟩ := List.cons.inj hds
      exact absurd hsplit.symm (hwritten.not_comment hsep)
  | token t' =>
    obtain ⟨hwritten', hlong, hkeyword⟩ := hfound ▸ hcuts
    have hle : cs.length ≤ head.length := Nat.le_of_succ_le_succ (hlong _ hfits hhead)
    obtain ⟨mid, rfl⟩ : cs <+: head :=
      List.prefix_of_prefix_length_le ⟨sep, rfl⟩ ⟨rest, hsplit⟩ hle
    have hmid : mid ++ rest = sep := by
      rw [List.append_assoc] at hsplit
      exact List.append_cancel_left hsplit
    -- Behind the token stands a blank, and no token has a blank in it.
    cases mid with
    | cons d mid =>
      obtain rfl : d = ' ' := hsep d (by simp [← hmid])
      cases hwritten'.not_isBlank ' ' (by simp)
    | nil =>
      rw [List.append_nil] at hwritten' hkeyword ⊢
      have heq : t' = t := (hwritten'.genuine hkeyword).unique h (hwritten'.spelling.trans hs.symm)
      exact ⟨congrArg _ heq, rfl, hmid⟩

theorem Genuine.lexemes (h : t.Genuine) (hsep : ∀ d ∈ sep.head?, d = ' ') (start : Nat) :
    lexemes start 0 (t.spelling.toList ++ sep) = .ok ⟨t, start, start + bytes t.spelling.toList⟩ ::
      lexemes (start + bytes t.spelling.toList) 0 sep := by
  obtain ⟨c, cs, hcs⟩ := h.exists_cons
  obtain ⟨hfound, htake, hdrop⟩ := h.piece hcs hsep
  rw [hcs, List.cons_append, lexemes_cons, hfound, htake, hdrop]
  rfl

end Token

namespace Lexer

theorem lexemes_blank {c : Char} (hc : isBlank c = true) (start : Nat) (cs : List Char) :
    lexemes start 0 (c :: cs) = lexemes (start + c.utf8Size) 0 cs := by
  cases cs with
  | nil => simp [lexemes, piece, hc]
  | cons d cs =>
    cases hd : isBlank d with
    | true => simp [lexemes, piece, hc, hd]
    | false => simp [lexemes, piece, hc, hd]

theorem exists_lexemes_spelled {ts : List Token} (hts : Token.AllGenuine ts) (start : Nat) :
    ∃ ls : List Lexeme, lexemes start 0 ([' '].intercalate (ts.map fun t => t.spelling.toList)) =
      ls.map .ok ∧ ls.map Lexeme.token = ts := by
  induction ts generalizing start with
  | nil => exact ⟨[], rfl, rfl⟩
  | cons t ts ih =>
    obtain ⟨ht, hts⟩ := Token.allGenuine_cons.mp hts
    cases ts with
    | nil =>
      refine ⟨[⟨t, start, start + bytes t.spelling.toList⟩], ?_, rfl⟩
      rw [List.map_singleton, List.intercalate_singleton, ← List.append_nil t.spelling.toList,
        ht.lexemes]
      · rw [List.append_nil]
        rfl
      · exact fun _ h => nomatch h
    | cons t' ts =>
      obtain ⟨ls, hls, htokens⟩ := ih hts (start + bytes t.spelling.toList + ' '.utf8Size)
      refine ⟨⟨t, start, start + bytes t.spelling.toList⟩ :: ls, ?_, by rw [List.map_cons, htokens]⟩
      rw [List.map_cons, List.map_cons, List.intercalate_cons_cons, List.append_assoc, ht.lexemes]
      · rw [List.singleton_append, lexemes_blank rfl]
        exact congrArg _ hls
      · intro d hd
        exact (Option.some.inj hd).symm

end Lexer

theorem Scan.tokens_of_lexemes {s : Scan} {ls : List Lexeme} (h : s.lexemes = ls.map .ok) :
    s.tokens = .ok ls := by
  have hmap : (ls.map Except.ok).mapM id = (ls.mapM pure : Except LexicalError (List Lexeme)) :=
    List.mapM_map
  rw [Scan.tokens, h, hmap, List.mapM_pure, List.map_id']
  rfl

/-- Scanning finds genuine tokens. -/
theorem Scan.genuine_of_mem {source : String} {l : Lexeme} (h : .ok l ∈ (ofString source).lexemes) :
    l.token.Genuine := by
  obtain ⟨before, found, after, -, hfound⟩ := (Lexer.tiled_lexemes 0 source.toList).located _ h
  cases hfound with
  | token hwritten _ hkeyword => exact hwritten.genuine hkeyword

/-- Scanning goes back from a text to the tokens that it was made of. -/
theorem Token.exists_tokens_text {ts : List Token} (hts : AllGenuine ts) :
    ∃ ls, (Scan.ofString (text ts)).tokens = .ok ls ∧ ls.map Lexeme.token = ts := by
  obtain ⟨ls, hls, htokens⟩ := exists_lexemes_spelled hts 0
  have htext : (text ts).toList = [' '].intercalate (ts.map fun t => t.spelling.toList) := by
    rw [text, String.toList_intercalate, List.map_map]
    rfl
  exact ⟨ls, Scan.tokens_of_lexemes ((congrArg _ htext).trans hls), htokens⟩

/-- The words that stand for themselves as identifiers. -/
def isName (name : String) : Bool :=
  match name.toList with
  | [] => false
  | c :: cs => isLetter c && cs.all isWordChar && (Keyword.ofSpelling? name).isNone

namespace Token

theorem genuine_identifier_iff {name : String} :
    (identifier name).Genuine ↔ isName name = true := by
  rw [isName]
  constructor
  · intro h
    obtain ⟨c, cs, hcs⟩ := h.exists_cons
    have hcs : name.toList = c :: cs := hcs
    have hwritten : (identifier name).Written (c :: cs) := hcs ▸ h.1
    have hletter : isLetter c = true := hwritten.leads
    have hword : ∀ d ∈ cs, isWordChar d = true := fits_of_letter hletter (.inl ⟨_, hwritten⟩)
    have hkeyword : Keyword.ofSpelling? name = none := by
      cases hk : Keyword.ofSpelling? name with
      | none => rfl
      | some k => cases h.2 k (Keyword.spelling_of_ofSpelling? hk ▸ .keyword k)
    simp only [hcs, hletter, hkeyword, Bool.true_and, Option.isNone_none, Bool.and_true]
    exact List.all_eq_true.mpr hword
  · intro h
    split at h
    · cases h
    · next c cs hcs =>
      simp only [Bool.and_eq_true, List.all_eq_true, Option.isNone_iff_eq_none] at h
      obtain ⟨⟨hletter, hword⟩, hkeyword⟩ := h
      have hname : name = String.ofList (c :: cs) := by rw [← hcs, String.ofList_toList]
      refine ⟨?_, fun k hk => ?_⟩
      · show (identifier name).Written name.toList
        rw [hcs, hname]
        exact .identifier hletter hword
      · have hspelling : k.spelling = name := String.toList_inj.mp hk.spelling
        rw [← hspelling, Keyword.ofSpelling?_spelling] at hkeyword
        cases hkeyword

@[simp] theorem genuine_keyword (k : Keyword) : (keyword k).Genuine := by
  refine ⟨.keyword k, fun k' hk => ?_⟩
  have hspelling : k'.spelling = k.spelling := String.toList_inj.mp hk.spelling
  have hsome : some k' = some k := by rw [← Keyword.ofSpelling?_spelling, hspelling,
    Keyword.ofSpelling?_spelling]
  rw [Option.some.inj hsome]

@[simp] theorem genuine_mark (m : Mark) : (mark m).Genuine := by
  refine ⟨.mark m, fun k hk => ?_⟩
  obtain ⟨c, cs, hm, -, hletter, -⟩ := m.first_class
  have hk : (keyword k).Written (c :: cs) := hm ▸ hk
  exact absurd (isLetter_of_keyword hk) (by simp [hletter])

theorem isDigit_of_mem_toString {n : Nat} {d : Char} (hd : d ∈ (toString n).toList) :
    Integer.isDigit d = true := by
  rw [Nat.toString_eq_ofList_toDigits, String.toList_ofList] at hd
  have h := Nat.isDigit_of_mem_toDigits (by decide) (by decide) hd
  simpa [Char.isDigit, Integer.isDigit, Char.le_def] using h

theorem genuine_decimal (n : Nat) : (integer (toString n)).Genuine := by
  obtain ⟨c, cs, hcs⟩ : ∃ c cs, (toString n).toList = c :: cs := by
    apply List.exists_cons_of_ne_nil
    rw [Nat.toString_eq_ofList_toDigits, String.toList_ofList]
    exact Nat.toDigits_ne_nil
  have hdigits : ∀ d ∈ c :: cs, Integer.isDigit d = true := hcs ▸ fun d => isDigit_of_mem_toString
  have hstring : toString n = String.ofList (c :: cs) := by rw [← hcs, String.ofList_toList]
  have hwritten : (integer (toString n)).Written (c :: cs) := hstring ▸ .decimal hdigits
  apply hwritten.genuine
  intro k hk
  exact absurd (hdigits c List.mem_cons_self)
    (by simp [isDigit_of_isLetter (isLetter_of_keyword hk)])

end Token

theorem DataType.genuine_token (type : DataType) : type.token.Genuine := by
  cases type <;> exact Token.genuine_keyword _

namespace Integer

theorem hexDigits?_of_digits {cs : List Char} (h : ∀ c ∈ cs, isDigit c = true) :
    hexDigits? cs = none := by
  unfold hexDigits?
  split
  · exact absurd (h 'x' (by simp)) (by decide)
  · exact absurd (h 'X' (by simp)) (by decide)
  · rfl

theorem ofDigits_of_digits {cs : List Char} (h : ∀ c ∈ cs, isDigit c = true) :
    ofDigits 10 cs = Nat.ofDigitChars 10 cs 0 := by
  rw [ofDigits, Nat.ofDigitChars_eq_foldl]
  apply List.foldl_ext
  intro n c hc
  rw [digit, if_pos (h c hc), Nat.mul_comm]

theorem value_toString (n : Nat) : value (toString n) = n := by
  have hdigits : ∀ c ∈ (toString n).toList, isDigit c = true :=
    fun c => Token.isDigit_of_mem_toString
  rw [value, hexDigits?_of_digits hdigits]
  show ofDigits 10 (toString n).toList = n
  rw [ofDigits_of_digits hdigits, Nat.toString_eq_ofList_toDigits, String.toList_ofList,
    Nat.ofDigitChars_ten_toDigits]

end Integer

end DecafCheck
