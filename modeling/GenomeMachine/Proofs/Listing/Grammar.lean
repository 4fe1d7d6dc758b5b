import GenomeMachine.Proofs.Listing.Stability
import Mathlib.Data.List.ReduceOption

/-! # The grammar of listings

Which texts are listings, and what they denote, said without reading anything: lines are texts
between line feeds, words are texts between blanks, and numbers are worth what their digits are
worth. `assemble_eq_ok_iff` says that the assembler takes these texts and no others. -/

namespace GenomeMachine

/-! ## Words that are numbers -/

/-- A word that is a number. A hexadecimal one is marked as such and may have a plus sign. -/
inductive IsNumber : List Char → Nat → Prop where
  | decimal {digits : List Char} {value : Nat} (h : IsNumeral 10 digits value) :
      IsNumber digits value
  | hexadecimal {x : Char} {sign digits : List Char} {value : Nat} (hx : x = 'x' ∨ x = 'X')
      (hsign : sign = [] ∨ sign = ['+']) (h : IsNumeral 16 digits value) :
      IsNumber ('0' :: x :: (sign ++ digits)) value

/-- The word does not start with a digit. -/
def IsName (word : List Char) : Prop :=
  ∀ ch ∈ word.head?, ch.isDigit = false

theorem word?_eq_some_iff {base value : Nat} {cs : List Char} :
    word? base cs = some value ↔ unsigned? base cs = some value ∧ value ≤ wordLimit := by
  rw [word?, Option.filter_eq_some_iff, decide_eq_true_eq]

theorem wordNumber?_hexadecimal {x : Char} (hx : x = 'x' ∨ x = 'X') (digits : List Char) :
    wordNumber? ('0' :: x :: digits) = word? 16 digits := by
  rcases hx with rfl | rfl <;> rfl

/-- What is not marked as hexadecimal is decimal. -/
theorem wordNumber?_decimal {word : List Char}
    (h : ∀ x digits, word = '0' :: x :: digits → ¬(x = 'x' ∨ x = 'X')) :
    wordNumber? word = word? 10 word := by
  rw [wordNumber?.eq_def]
  split
  · exact absurd (.inl rfl) (h _ _ rfl)
  · exact absurd (.inr rfl) (h _ _ rfl)
  · rfl

theorem IsNumeral.wordNumber?_eq {word : List Char} {value : Nat} (h : IsNumeral 10 word value) :
    wordNumber? word = word? 10 word := by
  refine wordNumber?_decimal ?_
  rintro x digits rfl hx
  have hdigit : isDigitIn 10 x = true := h.isDigitIn_of_mem x (by simp)
  rcases hx with rfl | rfl
  · exact absurd hdigit (by decide)
  · exact absurd hdigit (by decide)

/-- A sign is all that separates what is read as a number from the numbers. -/
theorem wordNumber?_eq_some_iff {word : List Char} {value : Nat}
    (hplus : word.head? ≠ some '+') :
    wordNumber? word = some value ↔ IsNumber word value ∧ value ≤ wordLimit := by
  constructor
  · intro h
    by_cases hhex : ∃ x digits, word = '0' :: x :: digits ∧ (x = 'x' ∨ x = 'X')
    · obtain ⟨x, rest, rfl, hx⟩ := hhex
      rw [wordNumber?_hexadecimal hx, word?_eq_some_iff] at h
      obtain ⟨sign, digits, hsign, rfl, hdigits⟩ := unsigned?_eq_some_iff.mp h.1
      exact ⟨.hexadecimal hx hsign hdigits, h.2⟩
    · rw [wordNumber?_decimal fun x digits hword hx => hhex ⟨x, digits, hword, hx⟩,
        word?_eq_some_iff] at h
      obtain ⟨sign, digits, hsign, rfl, hdigits⟩ := unsigned?_eq_some_iff.mp h.1
      rcases hsign with rfl | rfl
      · exact ⟨.decimal hdigits, h.2⟩
      · exact absurd rfl hplus
  · rintro ⟨hnumber, hlimit⟩
    cases hnumber with
    | decimal h =>
        rw [h.wordNumber?_eq, word?_eq_some_iff, unsigned?_eq_some_iff]
        exact ⟨⟨[], word, .inl rfl, rfl, h⟩, hlimit⟩
    | hexadecimal hx hsign h =>
        rw [wordNumber?_hexadecimal hx, word?_eq_some_iff, unsigned?_eq_some_iff]
        exact ⟨⟨_, _, hsign, rfl, h⟩, hlimit⟩

theorem IsNumber.head_isDigit {word : List Char} {value : Nat} (h : IsNumber word value) :
    word.head?.any (isDigitIn 10) = true := by
  cases h with
  | decimal h =>
      cases word with
      | nil => exact absurd rfl h.1
      | cons ch rest => exact h.isDigitIn_of_mem ch List.mem_cons_self
  | hexadecimal => rfl

theorem read_eq_number_iff {word : List Char} {value : Nat} :
    Token.read word = .ok (.number value) ↔ IsNumber word value ∧ value ≤ wordLimit := by
  have hplus (hhead : word.head?.any (isDigitIn 10) = true) : word.head? ≠ some '+' := by
    intro hplus
    rw [hplus] at hhead
    exact absurd hhead (by decide)
  constructor
  · intro h
    rw [Token.read] at h
    by_cases hhead : word.head?.any (isDigitIn 10) = true
    · rw [if_pos hhead] at h
      cases hnumber : wordNumber? word with
      | none =>
          rw [hnumber] at h
          cases h
      | some n =>
          rw [hnumber] at h
          cases h
          exact (wordNumber?_eq_some_iff (hplus hhead)).mp hnumber
    · rw [if_neg hhead] at h
      cases h
  · intro h
    have hhead := h.1.head_isDigit
    rw [Token.read, if_pos hhead, (wordNumber?_eq_some_iff (hplus hhead)).mpr h]

theorem read_eq_name_iff {word : List Char} {name : String} :
    Token.read word = .ok (.name name) ↔ IsName word ∧ name = String.ofList word := by
  constructor
  · intro h
    obtain ⟨hname, hdigit⟩ := of_read_eq_name h
    exact ⟨hdigit, by rw [← hname, String.ofList_toList]⟩
  · rintro ⟨hdigit, rfl⟩
    have hname : IsName (String.ofList word).toList := by rwa [String.toList_ofList]
    have hread := read_name hname
    rwa [String.toList_ofList] at hread

namespace Catalog

/-! ## Arguments -/

/-- A word that is an argument, and its value. A number has to fit into the 16 bits of one. -/
inductive IsArgument (c : Catalog) : List Char → UInt16 → Prop where
  | number {word : List Char} {value : UInt16} (h : IsNumber word value.toNat) :
      IsArgument c word value
  | symbol {word : List Char} {value : UInt16} (hname : IsName word)
      (h : c.symbol? (String.ofList word) = some value) : IsArgument c word value

variable {c : Catalog}

theorem readArgument_number_iff {n : Nat} {value : UInt16} :
    c.readArgument (.number n) = .ok value ↔ value.toNat = n := by
  rw [readArgument]
  by_cases hn : n < 65536
  · have hto : (UInt16.ofNat n).toNat = n := UInt16.toNat_ofNat_of_lt hn
    rw [if_pos hn, Except.ok.injEq, ← UInt16.toNat_inj, hto, eq_comm]
  · rw [if_neg hn]
    have hsmall := value.toNat_lt
    constructor
    · intro h
      cases h
    · intro h
      omega

theorem readArgument_name_iff {name : String} {value : UInt16} :
    c.readArgument (.name name) = .ok value ↔ c.symbol? name = some value := by
  rw [readArgument]
  cases c.symbol? name <;> simp

theorem isArgument_iff {word : List Char} {value : UInt16} :
    c.IsArgument word value ↔
      ∃ token, Token.read word = .ok token ∧ c.readArgument token = .ok value := by
  constructor
  · intro h
    cases h with
    | number h =>
        have hlimit : value.toNat ≤ wordLimit :=
          Nat.le_trans (Nat.le_of_lt value.toNat_lt) (by decide)
        exact ⟨_, read_eq_number_iff.mpr ⟨h, hlimit⟩, readArgument_number_iff.mpr rfl⟩
    | symbol hname h =>
        exact ⟨_, read_eq_name_iff.mpr ⟨hname, rfl⟩, readArgument_name_iff.mpr h⟩
  · rintro ⟨token, hread, hvalue⟩
    cases token with
    | number n =>
        obtain rfl := readArgument_number_iff.mp hvalue
        exact .number (read_eq_number_iff.mp hread).1
    | name name =>
        obtain ⟨hname, rfl⟩ := read_eq_name_iff.mp hread
        exact .symbol hname (readArgument_name_iff.mp hvalue)

/-- Reading takes as many arguments as are missing, word for word. -/
theorem readArguments_words_iff {e : Entry} {missing : Nat} {args : List (List Char)}
    {values : List UInt16} :
    (args.mapM Token.read >>= c.readArguments e missing) = .ok values ↔
      args.length = missing ∧ List.Forall₂ c.IsArgument args values := by
  induction args generalizing missing values with
  | nil =>
      constructor
      · intro h
        cases missing with
        | zero =>
            cases h
            exact ⟨rfl, .nil⟩
        | succ missing => cases h
      · rintro ⟨rfl, hargs⟩
        cases hargs
        rfl
  | cons word args ih =>
      constructor
      · intro h
        obtain ⟨tokens, htokens, h⟩ := bind_eq_ok_iff.mp h
        obtain ⟨token, rest, hread, hrest, rfl⟩ := mapM_cons_eq_ok_iff.mp htokens
        cases missing with
        | zero => cases h
        | succ missing =>
            obtain ⟨value, hvalue, h⟩ := bind_eq_ok_iff.mp h
            obtain ⟨others, hothers, h⟩ := bind_eq_ok_iff.mp h
            cases h
            have hword := isArgument_iff.mpr ⟨token, hread, hvalue⟩
            obtain ⟨hlength, hargs⟩ := ih.mp (bind_eq_ok_iff.mpr ⟨rest, hrest, hothers⟩)
            exact ⟨congrArg (· + 1) hlength, .cons hword hargs⟩
      · rintro ⟨rfl, hargs⟩
        cases hargs with
        | cons hword hargs =>
            obtain ⟨token, hread, hvalue⟩ := isArgument_iff.mp hword
            obtain ⟨rest, hrest, hothers⟩ := bind_eq_ok_iff.mp (ih.mpr ⟨rfl, hargs⟩)
            have htokens := mapM_cons_eq_ok_iff.mpr ⟨token, rest, hread, hrest, rfl⟩
            refine bind_eq_ok_iff.mpr ⟨token :: rest, htokens, ?_⟩
            rw [List.length_cons, readArguments, hvalue, hothers]
            rfl

/-! ## Statements -/

/-- Words that say nothing, or an instruction: the name of an entry, and then as many arguments as
the entry declares. The other argument slots are zero. -/
inductive IsStatement (c : Catalog) : List (List Char) → Option Instruction → Prop where
  | nothing : IsStatement c [] none
  | instruction {name : List Char} {args : List (List Char)} {values : List UInt16} {e : Entry}
      {i : Instruction} (hname : IsName name) (hentry : c.entry? i.id = some e)
      (he : e.name = String.ofList name) (harity : args.length = e.arity)
      (hargs : List.Forall₂ c.IsArgument args values)
      (hi : i.args = values ++ List.replicate (3 - e.arity) 0) :
      IsStatement c (name :: args) (some i)

theorem args_ofArgs (id : UInt16) {values : List UInt16} (h : values.length ≤ 3) :
    (Instruction.ofArgs id values).args = values ++ List.replicate (3 - values.length) 0 := by
  match values with
  | [] | [_] | [_, _] | [_, _, _] => rfl
  | _ :: _ :: _ :: _ :: rest =>
      simp only [List.length_cons] at h
      omega

theorem eq_ofArgs {i : Instruction} {values : List UInt16} (h : values.length ≤ 3)
    (hi : i.args = values ++ List.replicate (3 - values.length) 0) :
    i = .ofArgs i.id values := by
  rw [← args_ofArgs i.id h] at hi
  cases i
  simp only [Instruction.args, Instruction.ofArgs] at hi ⊢
  simp_all

/-- Words that are read as something say that. -/
theorem isStatement_of_readInstruction (hconsistent : Consistent c) {ws : List (List Char)}
    {tokens : List Token} {found : Option Instruction} (htokens : ws.mapM Token.read = .ok tokens)
    (h : c.readInstruction tokens = .ok found) : c.IsStatement ws found := by
  cases ws with
  | nil =>
      cases htokens
      cases h
      exact .nothing
  | cons name args =>
      obtain ⟨token, rest, hread, hrest, rfl⟩ := mapM_cons_eq_ok_iff.mp htokens
      cases token with
      | number n => cases h
      | name text =>
          obtain ⟨hname, rfl⟩ := read_eq_name_iff.mp hread
          rw [readInstruction] at h
          cases hnamed : c.named? (String.ofList name) with
          | none =>
              rw [hnamed] at h
              cases h
          | some found =>
              obtain ⟨id, e⟩ := found
              rw [hnamed] at h
              obtain ⟨values, hvalues, h⟩ := bind_eq_ok_iff.mp h
              cases h
              obtain ⟨hentry, he⟩ := hconsistent.of_named? hnamed
              obtain ⟨harity, hargs⟩ :=
                readArguments_words_iff.mp (bind_eq_ok_iff.mpr ⟨rest, hrest, hvalues⟩)
              have hlength := length_of_readArguments hvalues
              have hle := hconsistent.arity_le e (Array.mem_of_getElem? hentry)
              refine .instruction hname hentry he harity hargs ?_
              rw [← hlength]
              exact args_ofArgs id (by omega)

theorem IsStatement.read (hconsistent : Consistent c) {ws : List (List Char)}
    {found : Option Instruction} (h : c.IsStatement ws found) :
    ∃ tokens, ws.mapM Token.read = .ok tokens ∧ c.readInstruction tokens = .ok found := by
  cases h with
  | nothing => exact ⟨[], rfl, rfl⟩
  | @instruction name args values e i hname hentry he harity hargs hi =>
      obtain ⟨rest, hrest, hvalues⟩ :=
        bind_eq_ok_iff.mp (readArguments_words_iff.mpr ⟨harity, hargs⟩)
      have hlength := length_of_readArguments hvalues
      have hle := hconsistent.arity_le e (Array.mem_of_getElem? hentry)
      rw [← hlength] at hi
      have hread := read_eq_name_iff.mpr ⟨hname, he⟩
      refine ⟨.name e.name :: rest, mapM_cons_eq_ok_iff.mpr ⟨_, rest, hread, hrest, rfl⟩, ?_⟩
      rw [readInstruction, hconsistent.named?_name hentry]
      refine bind_eq_ok_iff.mpr ⟨values, hvalues, ?_⟩
      rw [eq_ofArgs (by omega) hi]
      rfl

/-! ## Lines -/

/-- A line without its comment: blank, the mark between two scopes, or a statement with other marks
in it. -/
inductive IsLine (c : Catalog) : List Char → Option Instruction → Prop where
  | blank {body : List Char} (hbody : ∀ ch ∈ body, isBlank ch = true) : IsLine c body none
  | sibling {front back : List Char} (hfront : ∀ ch ∈ front, isBlank ch = true)
      (hback : ∀ ch ∈ back, isBlank ch = true) : IsLine c (front ++ (siblingMark ++ back)) none
  | statement {body : List Char} {ws : List (List Char)} {found : Option Instruction}
      (hws : Spells ws body) (hsibling : ws ≠ [siblingMark])
      (h : c.IsStatement (ws.filter (· ≠ openMark)) found) : IsLine c body found

/-- What a line says, up to its comment. -/
def Says (c : Catalog) (line : List Char) (found : Option Instruction) : Prop :=
  ∃ body, (';' ∉ body ∧ (line = body ∨ ∃ comment, line = body ++ ';' :: comment)) ∧
    c.IsLine body found

/-- A text is a listing of instructions: each of its lines says nothing or an instruction, and these
are the instructions in the order of the lines. -/
def IsListing (c : Catalog) (text : List Char) (is : List Instruction) : Prop :=
  ∃ (ls : List (List Char)) (found : List (Option Instruction)),
    (ls ≠ [] ∧ (∀ line ∈ ls, '\n' ∉ line) ∧ text = ['\n'].intercalate ls) ∧
    List.Forall₂ c.Says ls found ∧ is = found.reduceOption

theorem takeWhile_of_comment {line body : List Char} (hbody : ';' ∉ body)
    (h : line = body ∨ ∃ comment, line = body ++ ';' :: comment) :
    line.takeWhile (· ≠ ';') = body := by
  have hall : ∀ ch ∈ body, (decide (ch ≠ ';')) = true := by
    intro ch hch
    simpa using ne_of_mem_of_not_mem hch hbody
  rcases h with rfl | ⟨comment, rfl⟩
  · exact List.takeWhile_eq_self_iff.mpr hall
  · rw [List.takeWhile_append_of_pos hall, List.takeWhile_cons_of_neg (by simp), List.append_nil]

theorem comment_of_takeWhile (line : List Char) :
    ';' ∉ line.takeWhile (· ≠ ';') ∧ (line = line.takeWhile (· ≠ ';') ∨
      ∃ comment, line = line.takeWhile (· ≠ ';') ++ ';' :: comment) := by
  induction line with
  | nil => exact ⟨by simp, .inl rfl⟩
  | cons ch line ih =>
      by_cases hch : ch = ';'
      · subst hch
        rw [List.takeWhile_cons_of_neg (by simp)]
        exact ⟨by simp, .inr ⟨line, rfl⟩⟩
      · obtain ⟨hbody, hline⟩ := ih
        rw [List.takeWhile_cons_of_pos (by simpa using hch)]
        refine ⟨by simpa using ⟨Ne.symm hch, by simpa using hbody⟩, ?_⟩
        rcases hline with hline | ⟨comment, hline⟩
        · exact .inl (congrArg (ch :: ·) hline)
        · exact .inr ⟨comment, congrArg (ch :: ·) hline⟩

/-- Of the words of a line, some carry the meaning. -/
theorem isLine_iff {body : List Char} {found : Option Instruction} :
    c.IsLine body found ↔ c.IsStatement
      (if words body = [siblingMark] then [] else (words body).filter (· ≠ openMark)) found := by
  constructor
  · intro h
    cases h with
    | blank hbody =>
        rw [words_eq_iff.mpr (.nil hbody)]
        exact .nothing
    | @sibling front back hfront hback =>
        have hmark : ∀ ch ∈ siblingMark, isBlank ch = false := by simp [siblingMark, isBlank]
        have hend : ∀ ch ∈ back.head?, isBlank ch = true :=
          fun ch hch => hback ch (List.mem_of_mem_head? hch)
        rw [words_gap_append hfront, words_solid_append (by decide) hmark hend,
          words_eq_iff.mpr (.nil hback), if_pos rfl]
        exact .nothing
    | statement hws hsibling h =>
        rw [hws.words_eq, if_neg hsibling]
        exact h
  · intro h
    by_cases hsibling : words body = [siblingMark]
    · rw [if_pos hsibling] at h
      cases h
      cases words_eq_iff.mp hsibling with
      | cons hfront _ _ _ hrest =>
          cases hrest with
          | nil hback => exact .sibling hfront hback
    · rw [if_neg hsibling] at h
      exact .statement (words_eq_iff.mp rfl) hsibling h

theorem readLine_eq_ok_iff (hconsistent : Consistent c) {line : List Char}
    {found : Option Instruction} : c.readLine line = .ok found ↔ c.Says line found := by
  rw [readLine, bind_eq_ok_iff]
  constructor
  · rintro ⟨tokens, htokens, h⟩
    have hstatement := isStatement_of_readInstruction hconsistent htokens h
    exact ⟨_, comment_of_takeWhile line, isLine_iff.mpr hstatement⟩
  · rintro ⟨body, ⟨hbody, hcomment⟩, h⟩
    obtain rfl := takeWhile_of_comment hbody hcomment
    exact (isLine_iff.mp h).read hconsistent

theorem readLines_eq_ok_iff (hconsistent : Consistent c) {number : Nat} {ls : List (List Char)}
    {is : List Instruction} :
    c.readLines number ls = .ok is ↔
      ∃ found, List.Forall₂ c.Says ls found ∧ is = found.reduceOption := by
  induction ls generalizing number is with
  | nil =>
      constructor
      · intro h
        cases h
        exact ⟨[], .nil, rfl⟩
      · rintro ⟨found, hfound, rfl⟩
        cases hfound
        rfl
  | cons line ls ih =>
      constructor
      · intro h
        cases hline : c.readLine line with
        | error cause => simp [readLines, hline] at h
        | ok first =>
            rw [readLines_cons hline] at h
            obtain ⟨others, hothers, rfl⟩ := map_eq_ok_iff.mp h
            obtain ⟨found, hfound, rfl⟩ := ih.mp hothers
            refine ⟨first :: found, .cons ((readLine_eq_ok_iff hconsistent).mp hline) hfound, ?_⟩
            cases first <;> rfl
      · rintro ⟨found, hfound, rfl⟩
        cases hfound with
        | @cons _ first _ found hline hfound =>
            rw [readLines_cons ((readLine_eq_ok_iff hconsistent).mpr hline),
              ih.mpr ⟨found, hfound, rfl⟩]
            cases first <;> rfl

end Catalog

/-- The assembler takes exactly the listings, and gives the instructions that they list. -/
theorem assemble_eq_ok_iff {c : Catalog} (hbuilt : c.Built) (text : String) (g : Genome) :
    c.assemble text = .ok g ↔ c.IsListing text.toList g.toList := by
  constructor
  · intro h
    obtain ⟨is, hlines, rfl⟩ := map_eq_ok_iff.mp h
    obtain ⟨found, hfound, his⟩ := (Catalog.readLines_eq_ok_iff hbuilt.consistent).mp hlines
    exact ⟨_, found, lines_eq_iff.mp rfl, hfound, his⟩
  · rintro ⟨ls, found, hls, hfound, hg⟩
    have hlines : c.readLines 1 ls = .ok g.toList :=
      (Catalog.readLines_eq_ok_iff hbuilt.consistent).mpr ⟨found, hfound, hg⟩
    rw [Catalog.assemble, lines_eq_iff.mpr hls, hlines]
    rfl

/-- Texts that are no listings: a number that is too large, one without digits, an argument too
many, a name that starts with a digit, and a symbolic argument without its instruction. -/
def unlisted : List String :=
  ["+1 65536 0", "+1 0x+ 0", "+1 - 0 0", "; 7up\n7up", "----\n- 3 --> ; +1"]

theorem motley_isListing :
    motley.Built ∧ motley.IsListing motleyListing.toList motleyGenome.toList ∧
      ∀ text ∈ unlisted, ∀ is, ¬motley.IsListing text.toList is := by
  have hbuilt : motley.Built := (Catalog.Built.empty.registerAll _).setSymbol "-" 3
  refine ⟨hbuilt, (assemble_eq_ok_iff hbuilt ..).mp (by decide +kernel), ?_⟩
  intro text htext is his
  have hrefused : ∀ text ∈ unlisted, (motley.assemble text).toOption = none := by decide +kernel
  have hassemble := (assemble_eq_ok_iff hbuilt text is.toArray).mpr his
  simpa [hassemble, Except.toOption] using hrefused text htext

end GenomeMachine
