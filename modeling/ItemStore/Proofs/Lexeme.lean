import Mathlib.Data.List.SplitBy
import Mathlib.Data.List.Chain
import ItemStore.Proofs.Placeholders

/-!
# Reading the symbols back from the text

The text of an expression is cut into lexemes wherever two neighbouring characters do not
belong together: a word runs on as long as its characters do, and so do an operator sign
and a position between brackets.  Blanks between lexemes are dropped.  No two words stand
next to each other in a compiled expression, so its text has the lexemes of its symbols,
and the symbols can be read back.

## Main definitions

* `lexemes`, `placeholders` — the lexemes of a text, and those that are placeholders.
* `Symbol.scan` — the symbols of a text, if it is one of symbols.
* `Symbol.Spaced` — no two words of a row are neighbours.

## Main results

* `Symbol.lexemes_render` — the text of a row has the lexemes of the row.
* `Symbol.scan_render` — the symbols are read back.
* `Symbol.namePlaceholders_render`, `Symbol.valuePlaceholders_render` — the text has the
  placeholders of the row and no other.
* `Condition.Compiled.spaced` and its neighbours — compiled rows are spaced.
-/

namespace ItemStore

/-! ### Lexemes -/

namespace Lexeme

/-- A character of a word. -/
def isWord (c : Char) : Bool := c.isAlphanum || c == '_' || c == '#' || c == ':'

/-- A character of a comparison. -/
def isOperator (c : Char) : Bool := c == '<' || c == '>' || c == '='

/-- Whether two neighbouring characters belong to one lexeme. -/
def joins (a b : Char) : Bool :=
  (isWord a && isWord b) || (isOperator a && isOperator b) || a == '[' || b == ']'

/-- The lexemes of a list of characters. -/
def runs (cs : List Char) : List (List Char) := (cs.splitBy joins).filter (· ≠ [' '])

@[simp] theorem runs_nil : runs [] = [] := rfl

theorem runs_append {cs ds : List Char}
    (h : ∀ a ∈ cs.getLast?, ∀ b ∈ ds.head?, joins a b = false) :
    runs (cs ++ ds) = runs cs ++ runs ds := by
  unfold runs
  rw [List.splitBy_append h, List.filter_append]

/-- Characters that belong together are one lexeme. -/
theorem runs_of_isChain {cs : List Char} (hne : cs ≠ []) (hspace : cs ≠ [' '])
    (h : cs.IsChain fun a b => joins a b) : runs cs = [cs] := by
  unfold runs
  rw [List.splitBy_of_isChain hne h]
  simp [hspace]

end Lexeme

/-- The lexemes of a text. -/
def lexemes (text : String) : List String := (Lexeme.runs text.toList).map String.ofList

/-- Whether a lexeme is a placeholder of a name. -/
def isNamePlaceholder (lexeme : String) : Bool := lexeme.toList.head? = some '#'

/-- Whether a lexeme is a placeholder of a value. -/
def isValuePlaceholder (lexeme : String) : Bool := lexeme.toList.head? = some ':'

/-- The placeholders of names in a text, from the left. -/
def namePlaceholders (text : String) : List String := (lexemes text).filter isNamePlaceholder

/-- The placeholders of values in a text, from the left. -/
def valuePlaceholders (text : String) : List String := (lexemes text).filter isValuePlaceholder

/-- The placeholders in a text, of either kind, from the left. -/
def placeholders (text : String) : List String :=
  (lexemes text).filter fun lexeme => isNamePlaceholder lexeme || isValuePlaceholder lexeme

namespace Symbol

open Lexeme

/-- The spelling of a symbol without the blanks around it. -/
def spelling : Symbol → String
  | .comma => ","
  | .comparator c => c.text
  | .connective c => c.text
  | .arithmetic o => o.text
  | .between => "BETWEEN"
  | .among => "IN"
  | s => s.text

/-- The symbols whose spelling carries no number. -/
def fixed : List Symbol :=
  [dot, comma, opening, closing, between, among] ++
    List.map comparator [.equal, .notEqual, .less, .lessOrEqual, .greater, .greaterOrEqual] ++
    List.map connective [.and, .or] ++ List.map arithmetic [.plus, .minus] ++
    List.map function [.size, .ifNotExists, .listAppend, .beginsWith, .contains,
      .attributeExists, .attributeNotExists, .attributeType] ++
    List.map clause Clause.all

/-- The number that digits denote. -/
def numberOf (digits : List Char) : Nat := Nat.ofDigitChars 10 digits 0

/-- The only symbol that a lexeme may spell. -/
def candidate? (lexeme : String) : Option Symbol :=
  match lexeme.toList with
  | '#' :: 'n' :: digits => some (.name (numberOf digits))
  | ':' :: 'v' :: digits => some (.value (numberOf digits))
  | '[' :: digits => some (.index (numberOf digits.dropLast))
  | _ => fixed.find? fun s => s.spelling = lexeme

/-- The symbol that a lexeme spells. -/
def ofLexeme? (lexeme : String) : Option Symbol :=
  (candidate? lexeme).filter fun s => s.spelling = lexeme

/-- The symbols of a text, if each of its lexemes is one. -/
def scan (text : String) : Option (List Symbol) := (lexemes text).mapM ofLexeme?

/-! ### Single symbols -/

@[simp] theorem toList_nameToken (number : Nat) :
    (nameToken number).toList = '#' :: 'n' :: Nat.toDigits 10 number := by
  simp [nameToken, natText]

@[simp] theorem toList_valueToken (number : Nat) :
    (valueToken number).toList = ':' :: 'v' :: Nat.toDigits 10 number := by
  simp [valueToken, natText]

theorem toList_text_index (position : Nat) :
    (text (.index position)).toList = '[' :: (Nat.toDigits 10 position ++ [']']) := by
  simp [text, natText]

theorem numberOf_toDigits (n : Nat) : numberOf (Nat.toDigits 10 n) = n :=
  Nat.ofDigitChars_ten_toDigits

theorem isWord_of_mem_toDigits {n : Nat} {c : Char} (h : c ∈ Nat.toDigits 10 n) : isWord c := by
  have hdigit := Nat.isDigit_of_mem_toDigits (by decide) (by decide) h
  simp [isWord, Char.isAlphanum, hdigit]

/-- Characters of words belong together. -/
theorem isChain_of_isWord {cs : List Char} (h : ∀ c ∈ cs, isWord c) :
    cs.IsChain fun a b => joins a b := by
  refine (List.pairwise_of_forall_mem_list ?_).isChain
  intro a ha b hb
  simp [joins, h a ha, h b hb]

/-- The characters of a placeholder belong together. -/
theorem isChain_token {a b : Char} (ha : isWord a) (hb : isWord b) (n : Nat) :
    (a :: b :: Nat.toDigits 10 n).IsChain fun a b => joins a b := by
  refine isChain_of_isWord ?_
  intro c hc
  rcases List.mem_cons.mp hc with rfl | hc
  · exact ha
  · rcases List.mem_cons.mp hc with rfl | hc
    · exact hb
    · exact isWord_of_mem_toDigits hc

/-- The text of a placeholder is one lexeme. -/
theorem runs_token {a b : Char} (ha : isWord a) (hb : isWord b) (n : Nat) :
    runs (a :: b :: Nat.toDigits 10 n) = [a :: b :: Nat.toDigits 10 n] :=
  runs_of_isChain (by simp) (by simp) (isChain_token ha hb n)

/-- The text of a symbol is one lexeme, and a blank is none. -/
theorem runs_text {s : Symbol} (hs : s ≠ .space) : runs s.text.toList = [s.spelling.toList] := by
  cases s with
  | name number =>
    show runs (nameToken number).toList = [(nameToken number).toList]
    rw [toList_nameToken, runs_token rfl rfl]
  | value number =>
    show runs (valueToken number).toList = [(valueToken number).toList]
    rw [toList_valueToken, runs_token rfl rfl]
  | index position =>
    show runs (text (.index position)).toList = [(text (.index position)).toList]
    rw [toList_text_index]
    refine runs_of_isChain (by simp) (by simp) ?_
    -- Brackets join on their inner sides, and the digits are a word.
    refine List.isChain_cons.mpr ⟨fun _ _ => by simp [joins], ?_⟩
    refine List.isChain_append.mpr ⟨isChain_of_isWord fun c => isWord_of_mem_toDigits,
      .singleton _, ?_⟩
    intro a _ b hb
    cases hb
    simp [joins]
  | space => exact absurd rfl hs
  | comparator c => cases c <;> decide +kernel
  | connective c => cases c <;> decide +kernel
  | arithmetic o => cases o <;> decide +kernel
  | function f => cases f <;> decide +kernel
  | clause c => cases c <;> decide +kernel
  | _ => decide +kernel

theorem ofLexeme?_spelling {s : Symbol} (hs : s ≠ .space) : ofLexeme? s.spelling = some s := by
  have hcandidate : candidate? s.spelling = some s := by
    cases s with
    | name number =>
      show candidate? (nameToken number) = _
      simp only [candidate?, toList_nameToken, numberOf_toDigits]
    | value number =>
      show candidate? (valueToken number) = _
      simp only [candidate?, toList_valueToken, numberOf_toDigits]
    | index position =>
      show candidate? (text (.index position)) = _
      simp only [candidate?, toList_text_index, List.dropLast_concat, numberOf_toDigits]
    | space => exact absurd rfl hs
    | comparator c => cases c <;> decide +kernel
    | connective c => cases c <;> decide +kernel
    | arithmetic o => cases o <;> decide +kernel
    | function f => cases f <;> decide +kernel
    | clause c => cases c <;> decide +kernel
    | _ => decide +kernel
  simp [ofLexeme?, hcandidate]

/-! ### Neighbours -/

/-- A symbol that must not stand next to another one of its kind. -/
def isWord : Symbol → Bool
  | .name _ => true
  | .value _ => true
  | .function _ => true
  | .clause _ => true
  | _ => false

/-- How the text of a symbol starts. -/
theorem head?_text (s : Symbol) :
    ∃ b, s.text.toList.head? = some b ∧ b ≠ ']' ∧ isOperator b = false ∧
      Lexeme.isWord b = s.isWord := by
  cases s with
  | name number => exact ⟨'#', by simp [text], by decide, by decide, rfl⟩
  | value number => exact ⟨':', by simp [text], by decide, by decide, rfl⟩
  | index position => exact ⟨'[', by rw [toList_text_index]; rfl, by decide, by decide, rfl⟩
  | comparator c => cases c <;> exact ⟨' ', by decide, by decide, by decide, rfl⟩
  | connective c => cases c <;> exact ⟨' ', by decide, by decide, by decide, rfl⟩
  | arithmetic o => cases o <;> exact ⟨' ', by decide, by decide, by decide, rfl⟩
  | function f => cases f <;> exact ⟨_, rfl, by decide, by decide, by decide⟩
  | clause c => cases c <;> exact ⟨_, rfl, by decide, by decide, by decide⟩
  | _ => exact ⟨_, rfl, by decide, by decide, by decide⟩

theorem getLast?_toDigits (n : Nat) (cs : List Char) :
    ∃ a, (cs ++ Nat.toDigits 10 n).getLast? = some a ∧ Lexeme.isWord a := by
  have hne : Nat.toDigits 10 n ≠ [] := Nat.toDigits_ne_nil
  refine ⟨(Nat.toDigits 10 n).getLast hne, ?_, isWord_of_mem_toDigits (List.getLast_mem hne)⟩
  rw [List.getLast?_append, List.getLast?_eq_some_getLast hne]
  rfl

/-- How the text of a symbol ends. -/
theorem getLast?_text (s : Symbol) :
    ∃ a, s.text.toList.getLast? = some a ∧ a ≠ '[' ∧ Lexeme.isWord a = s.isWord := by
  cases s with
  | name number =>
    obtain ⟨a, ha, hword⟩ := getLast?_toDigits number ['#', 'n']
    refine ⟨a, ?_, ?_, hword⟩
    · rw [text, toList_nameToken]
      exact ha
    · rintro rfl
      cases hword
  | value number =>
    obtain ⟨a, ha, hword⟩ := getLast?_toDigits number [':', 'v']
    refine ⟨a, ?_, ?_, hword⟩
    · rw [text, toList_valueToken]
      exact ha
    · rintro rfl
      cases hword
  | index position =>
    refine ⟨']', ?_, by decide, rfl⟩
    rw [toList_text_index, ← List.cons_append, List.getLast?_concat]
  | comparator c => cases c <;> exact ⟨' ', by decide, by decide, rfl⟩
  | connective c => cases c <;> exact ⟨' ', by decide, by decide, rfl⟩
  | arithmetic o => cases o <;> exact ⟨' ', by decide, by decide, rfl⟩
  | function f => cases f <;> exact ⟨_, rfl, by decide, by decide⟩
  | clause c => cases c <;> exact ⟨_, rfl, by decide, by decide⟩
  | _ => exact ⟨_, rfl, by decide, by decide⟩

/-- Two symbols of which one is no word are cut apart. -/
theorem joins_eq_false {s t : Symbol} (h : ¬(s.isWord ∧ t.isWord)) :
    ∀ a ∈ s.text.toList.getLast?, ∀ b ∈ t.text.toList.head?, joins a b = false := by
  intro a ha b hb
  obtain ⟨a', ha', hopening, hlast⟩ := getLast?_text s
  obtain ⟨b', hb', hclosing, hoperator, hfirst⟩ := head?_text t
  obtain rfl : a' = a := Option.some.inj (ha'.symm.trans ha)
  obtain rfl : b' = b := Option.some.inj (hb'.symm.trans hb)
  -- Of the four ways to join, only two words could be at fault.
  have hwords : (Lexeme.isWord a' && Lexeme.isWord b') = false := by
    rw [hlast, hfirst]
    simpa using h
  simp [joins, hwords, hoperator, hopening, hclosing]

/-! ### Rows -/

/-- No two words of a row are neighbours. -/
def Spaced (row : List Symbol) : Prop := row.IsChain fun s t => ¬(s.isWord ∧ t.isWord)

theorem toList_render (row : List Symbol) :
    (render row).toList = row.flatMap fun s => s.text.toList := by
  rw [render, String.toList_join, List.flatMap_map]

/-- A symbol is cut apart from the row after it. -/
theorem cut_text {s : Symbol} {row : List Symbol}
    (h : ∀ t ∈ row.head?, ¬(s.isWord ∧ t.isWord)) :
    ∀ a ∈ s.text.toList.getLast?, ∀ b ∈ (row.flatMap fun s => s.text.toList).head?,
      joins a b = false := by
  cases row with
  | nil =>
    intro a _ b hb
    cases hb
  | cons t row =>
    -- No text is empty, so the rest starts with the text of the next symbol.
    intro a ha b hb
    obtain ⟨c, hc, -⟩ := head?_text t
    rw [List.flatMap_cons, List.head?_append, hc, ← hc] at hb
    exact joins_eq_false (h t rfl) a ha b (by simpa [hc] using hb)

theorem runs_flatMap_text {row : List Symbol} (h : Spaced row) :
    runs (row.flatMap fun s => s.text.toList) =
      (row.filter (· ≠ .space)).map fun s => s.spelling.toList := by
  induction row with
  | nil => rfl
  | cons s row ih =>
    obtain ⟨hhead, htail⟩ := List.isChain_cons.mp h
    rw [List.flatMap_cons, runs_append (cut_text hhead), ih htail]
    by_cases hs : s = .space
    · subst hs
      rfl
    · rw [runs_text hs, List.filter_cons_of_pos (by simpa using hs)]
      rfl

/-- The text of a row has the lexemes of the row. -/
theorem lexemes_render {row : List Symbol} (h : Spaced row) :
    lexemes (render row) = (row.filter (· ≠ .space)).map spelling := by
  rw [lexemes, toList_render, runs_flatMap_text h, List.map_map]
  simp [Function.comp_def]

/-- The symbols of a row are read back from its text. -/
theorem scan_render {row : List Symbol} (h : Spaced row) :
    scan (render row) = some (row.filter (· ≠ .space)) := by
  rw [scan, lexemes_render h]
  have hall : ∀ s ∈ row.filter (· ≠ .space), s ≠ .space := by
    intro s hs
    simpa using (List.mem_filter.mp hs).2
  generalize row.filter (· ≠ .space) = symbols at hall
  induction symbols with
  | nil => rfl
  | cons s symbols ih =>
    rw [List.map_cons, List.mapM_cons, ofLexeme?_spelling (hall s (List.mem_cons_self ..)),
      ih fun t ht => hall t (List.mem_cons_of_mem _ ht)]
    rfl

/-! ### Placeholders -/

theorem isNamePlaceholder_spelling (s : Symbol) :
    isNamePlaceholder s.spelling = s.name?.isSome := by
  cases s with
  | name number => simp [isNamePlaceholder, spelling, text, name?]
  | value number => simp [isNamePlaceholder, spelling, text, name?]
  | index position => simp [isNamePlaceholder, spelling, toList_text_index, name?]
  | comparator c => cases c <;> decide
  | connective c => cases c <;> decide
  | arithmetic o => cases o <;> decide
  | function f => cases f <;> decide
  | clause c => cases c <;> decide
  | _ => decide

theorem isValuePlaceholder_spelling (s : Symbol) :
    isValuePlaceholder s.spelling = s.value?.isSome := by
  cases s with
  | name number => simp [isValuePlaceholder, spelling, text, value?]
  | value number => simp [isValuePlaceholder, spelling, text, value?]
  | index position => simp [isValuePlaceholder, spelling, toList_text_index, value?]
  | comparator c => cases c <;> decide
  | connective c => cases c <;> decide
  | arithmetic o => cases o <;> decide
  | function f => cases f <;> decide
  | clause c => cases c <;> decide
  | _ => decide

/-- The lexemes of a row that pass a test, where the test picks out the symbols with a
number of some kind. -/
theorem filter_lexemes_render {row : List Symbol} (h : Spaced row) {test : String → Bool}
    {number? : Symbol → Option Nat} {token : Nat → String}
    (htest : ∀ s, test s.spelling = (number? s).isSome) (hspace : number? .space = none)
    (htoken : ∀ s n, number? s = some n → s.spelling = token n) :
    (lexemes (render row)).filter test = (row.filterMap number?).map token := by
  rw [lexemes_render h]
  clear h
  induction row with
  | nil => rfl
  | cons s row ih =>
    by_cases hs : s = .space
    · subst hs
      rw [List.filterMap_cons, hspace]
      exact ih
    · rw [List.filter_cons_of_pos (by simpa using hs), List.map_cons, List.filterMap_cons]
      cases hnumber : number? s with
      | none =>
        rw [List.filter_cons_of_neg (by simp [htest, hnumber]), ih]
      | some n =>
        rw [List.filter_cons_of_pos (by simp [htest, hnumber]), ih, htoken s n hnumber]
        rfl

/-- The text of a row has the placeholders of names that the row has, and no others. -/
theorem namePlaceholders_render {row : List Symbol} (h : Spaced row) :
    namePlaceholders (render row) = (nameTokens row).map nameToken := by
  refine filter_lexemes_render h isNamePlaceholder_spelling rfl ?_
  intro s n hs
  cases s with
  | name number =>
    cases hs
    rfl
  | _ => cases hs

/-- The text of a row has the placeholders of values that the row has, and no others. -/
theorem valuePlaceholders_render {row : List Symbol} (h : Spaced row) :
    valuePlaceholders (render row) = (valueTokens row).map valueToken := by
  refine filter_lexemes_render h isValuePlaceholder_spelling rfl ?_
  intro s n hs
  cases s with
  | value number =>
    cases hs
    rfl
  | _ => cases hs

/-- A symbol that stands for something. -/
def isPlaceholder (s : Symbol) : Bool := s.token?.isSome

/-- The text of a row has the placeholders of the row, and no others. -/
theorem placeholders_render {row : List Symbol} (h : Spaced row) :
    placeholders (render row) = (row.filter isPlaceholder).map spelling := by
  have hspelling : ∀ s : Symbol,
      (isNamePlaceholder s.spelling || isValuePlaceholder s.spelling) = s.isPlaceholder := by
    intro s
    rw [isNamePlaceholder_spelling, isValuePlaceholder_spelling]
    cases s <;> rfl
  have hblank : ∀ s ∈ row, (s.isPlaceholder && decide (s ≠ .space)) = s.isPlaceholder := by
    intro s _
    cases s <;> rfl
  rw [placeholders, lexemes_render h, List.filter_map]
  simp only [Function.comp_def, hspelling, List.filter_filter]
  rw [List.filter_congr hblank]

theorem injective_of_toList {token : Nat → String} {a b : Char}
    (h : ∀ n, (token n).toList = a :: b :: Nat.toDigits 10 n) : Function.Injective token := by
  intro n m heq
  have hdigits : Nat.toDigits 10 n = Nat.toDigits 10 m := by
    have hlist := congrArg String.toList heq
    rw [h, h] at hlist
    exact (List.cons.inj (List.cons.inj hlist).2).2
  rw [← numberOf_toDigits n, ← numberOf_toDigits m, hdigits]

theorem nameToken_injective : Function.Injective nameToken := injective_of_toList toList_nameToken

theorem valueToken_injective : Function.Injective valueToken :=
  injective_of_toList toList_valueToken

/-! ### Compiled rows -/

theorem spaced_nil : Spaced [] := .nil

theorem spaced_singleton (s : Symbol) : Spaced [s] := .singleton s

/-- Two rows with a symbol between them that is no word. -/
theorem Spaced.separated {r t : List Symbol} {s : Symbol} (hr : Spaced r) (ht : Spaced t)
    (hs : s.isWord = false := by rfl) : Spaced (r ++ [s] ++ t) := by
  rw [List.append_assoc, List.singleton_append]
  refine List.isChain_append.mpr ⟨hr, List.isChain_cons.mpr ⟨?_, ht⟩, ?_⟩
  · intro a _
    simp [hs]
  · intro a _ b hb
    cases hb
    simp [hs]

theorem Spaced.parenthesised {r : List Symbol} (hr : Spaced r) :
    Spaced ([.opening] ++ r ++ [.closing]) := by
  have hopened : Spaced ([] ++ [.opening] ++ r) := spaced_nil.separated hr
  simpa using hopened.separated spaced_nil (s := .closing)

end Symbol

open ItemStore.Symbol

namespace Fragment

/-- No two words of a fragment are neighbours. -/
def Spaced (f : Fragment) : Prop := Symbol.Spaced f.symbols

/-- Only blanks of their own are lost when symbols are read back from the text. -/
theorem scan_text {f : Fragment} (hspaced : f.Spaced) (hspace : .space ∉ f.symbols) :
    scan f.text = some f.symbols := by
  have hsymbols : f.symbols.filter (· ≠ .space) = f.symbols := by
    refine List.filter_eq_self.mpr ?_
    intro s hs
    have hne : s ≠ .space := by
      rintro rfl
      exact hspace hs
    simpa using hne
  rw [text, scan_render hspaced, hsymbols]

theorem Spaced.separated {f g : Fragment} {s : Symbol} (hf : f.Spaced) (hg : g.Spaced)
    (hs : s.isWord = false := by rfl) : (f ++ symbol s ++ g).Spaced :=
  Symbol.Spaced.separated hf hg hs

theorem Spaced.parenthesised {f : Fragment} (hf : f.Spaced) : f.parenthesised.Spaced :=
  Symbol.Spaced.parenthesised hf

theorem spaced_join {separator : Symbol} {fs : List Fragment} (h : ∀ f ∈ fs, f.Spaced)
    (hs : separator.isWord = false := by rfl) : (join separator fs).Spaced := by
  induction fs with
  | nil => exact spaced_nil
  | cons f fs ih =>
    cases fs with
    | nil => exact h f (List.mem_cons_self ..)
    | cons g fs =>
      rw [join_cons_cons]
      exact (h f (List.mem_cons_self ..)).separated
        (ih fun x hx => h x (List.mem_cons_of_mem _ hx)) hs

theorem spaced_call {function : FunctionName} {arguments : List Fragment}
    (h : ∀ f ∈ arguments, f.Spaced) : (call function arguments).Spaced := by
  have hword : Symbol.Spaced ([.function function] ++ [.opening] ++
      (join .comma arguments).symbols) :=
    (spaced_singleton _).separated (spaced_join h)
  have hclosed := hword.separated spaced_nil (s := .closing)
  simpa [Fragment.Spaced, call, Fragment.parenthesised, symbol] using hclosed

end Fragment

/-! ### What is written for placeholders -/

namespace Fragment

theorem keys_writtenNames (names : Dict Nat String) :
    Dict.keys (writtenNames names) = (Dict.keys names).map nameToken := by
  simp [Dict.keys, writtenNames]

theorem keys_writtenValues (values : Dict Nat Wire) :
    Dict.keys (writtenValues values) = (Dict.keys values).map valueToken := by
  simp [Dict.keys, writtenValues]

/-- What is written for a number is looked up under its placeholder. -/
theorem get?_map_of_injective {α : Type} {token : Nat → String}
    (htoken : Function.Injective token) (d : Dict Nat α) (k : Nat) :
    Dict.get? (d.map fun e => (token e.1, e.2)) (token k) = Dict.get? d k := by
  induction d with
  | nil => rfl
  | cons e d ih =>
    rw [List.map_cons, Dict.get?_cons, ih, Dict.get?_cons]
    simp only [htoken.eq_iff]

theorem get?_writtenNames (names : Dict Nat String) (k : Nat) :
    Dict.get? (writtenNames names) (nameToken k) = Dict.get? names k :=
  get?_map_of_injective nameToken_injective names k

theorem get?_writtenValues (values : Dict Nat Wire) (k : Nat) :
    Dict.get? (writtenValues values) (valueToken k) = Dict.get? values k :=
  get?_map_of_injective valueToken_injective values k

/-- A name is looked up under its placeholder, if no number occurs twice. -/
theorem Bound.written_name {f : Fragment} (hf : f.Bound) (htokens : f.tokens.Nodup) {k : Nat}
    {s : String} (hmem : (k, s) ∈ f.names) :
    Dict.get? (writtenNames f.names) (nameToken k) = some s := by
  have hkeys : (Dict.keys f.names).Nodup := by
    rw [hf.names]
    exact htokens.sublist (nameTokens_sublist f.symbols)
  rw [get?_writtenNames, Dict.get?_of_mem hkeys hmem]

/-- A value is looked up under its placeholder, if no number occurs twice. -/
theorem Bound.written_value {f : Fragment} (hf : f.Bound) (htokens : f.tokens.Nodup) {k : Nat}
    {w : Wire} (hmem : (k, w) ∈ f.values) :
    Dict.get? (writtenValues f.values) (valueToken k) = some w := by
  have hkeys : (Dict.keys f.values).Nodup := by
    rw [hf.values]
    exact htokens.sublist (valueTokens_sublist f.symbols)
  rw [get?_writtenValues, Dict.get?_of_mem hkeys hmem]

end Fragment

open Fragment

/-! ### Compiled rows -/

/-- The steps of a path are spaced, and none of them starts with a word. -/
theorem Reference.StepsCompiled.spaced {steps : List PathStep} {n m : Nat} {f : Fragment}
    (h : Reference.StepsCompiled steps n f m) :
    f.Spaced ∧ ∀ s ∈ f.symbols.head?, s.isWord = false := by
  induction h with
  | nil => exact ⟨spaced_nil, by simp [Fragment.empty]⟩
  | @field name steps n m f _ ih =>
    constructor
    · refine List.isChain_cons.mpr ⟨by simp [isWord], List.isChain_cons.mpr ⟨?_, ih.1⟩⟩
      intro t ht
      simp [ih.2 t ht]
    · intro t ht
      cases ht
      rfl
  | index _ ih =>
    constructor
    · exact List.isChain_cons.mpr ⟨by simp [isWord], ih.1⟩
    · intro t ht
      cases ht
      rfl

theorem Reference.Compiled.spaced {r : Reference} {n m : Nat} {f : Fragment}
    (h : r.Compiled n f m) : f.Spaced := by
  obtain ⟨name, g, -, hg, rfl⟩ := h
  obtain ⟨hspaced, hhead⟩ := hg.spaced
  refine List.isChain_cons.mpr ⟨?_, hspaced⟩
  intro t ht
  simp [hhead t ht]

theorem spaced_value (number : Nat) (w : Wire) : (Fragment.value number w).Spaced :=
  spaced_singleton _

theorem Operand.Compiled.spaced {o : Operand} {n m : Nat} {f : Fragment}
    (h : o.Compiled n f m) : f.Spaced := by
  induction h with
  | path hr => exact hr.spaced
  | literal _ => exact spaced_value _ _
  | size hr => exact spaced_call (by simpa using hr.spaced)
  | arithmetic _ _ ihf ihg => exact ihf.separated ihg
  | ifNotExists hr _ ih => exact spaced_call (by simpa using ⟨hr.spaced, ih⟩)
  | listAppend _ _ ihf ihg => exact spaced_call (by simpa using ⟨ihf, ihg⟩)

theorem Condition.spaced_nested {f : Fragment} (h : f.Spaced) (c : Condition) :
    (c.nested f).Spaced := by
  unfold Condition.nested
  split
  · exact h.parenthesised
  · exact h

theorem Condition.Compiled.spaced {c : Condition} {n m : Nat} {f : Fragment}
    (h : c.Compiled n f m) : f.Spaced := by
  induction h with
  | compare hf hg => exact hf.spaced.separated hg.spaced
  | between hf hg hh => exact (hf.spaced.separated hg.spaced).separated hh.spaced
  | beginsWith hf hg => exact spaced_call (by simpa using ⟨hf.spaced, hg.spaced⟩)
  | contains hf hg => exact spaced_call (by simpa using ⟨hf.spaced, hg.spaced⟩)
  | «exists» hf => exact spaced_call (by simpa using hf.spaced)
  | notExists hf => exact spaced_call (by simpa using hf.spaced)
  | hasType hf => exact spaced_call (by simpa using ⟨hf.spaced, spaced_value _ _⟩)
  | among _ hf hgs =>
    have hitems := hgs.forall_mem fun _ _ _ _ ho => Operand.Compiled.spaced ho
    exact hf.spaced.separated (spaced_join hitems).parenthesised
  | joined _ _ ihf ihg => exact (spaced_nested ihf _).separated (spaced_nested ihg _)

theorem UpdateAction.Compiled.spaced {a : UpdateAction} {n m : Nat} {f : Fragment}
    (h : a.Compiled n f m) : f.Spaced := by
  cases h with
  | set hf hg => exact hf.spaced.separated hg.spaced
  | remove hf => exact hf.spaced
  | add hf _ _ => exact hf.spaced.separated (spaced_value _ _)
  | delete hf _ _ => exact hf.spaced.separated (spaced_value _ _)

theorem Update.spaced_of_runFrom {u : Update} {n m : Nat} {f : Fragment}
    (h : Compile.runFrom u.compile n = (.ok f, m)) : f.Spaced := by
  obtain ⟨compiled, hactions, rfl⟩ := runFrom_compile_eq_ok.mp h
  have hcompiled : ∀ entry ∈ compiled, entry.2.Spaced :=
    hactions.forall_mem fun _ _ _ _ ha => ha.2.spaced
  refine spaced_join ?_
  intro g hg
  obtain ⟨c, -, hc⟩ := List.mem_filterMap.mp hg
  rw [clauseOf_eq] at hc
  split at hc
  · cases hc
  · cases hc
    have hactions : ∀ g ∈ (compiled.filter fun entry => entry.1 = c).map Prod.snd, g.Spaced := by
      intro g hg
      obtain ⟨entry, hentry, rfl⟩ := List.mem_map.mp hg
      exact hcompiled entry (List.mem_of_mem_filter hentry)
    exact Spaced.separated (f := symbol (.clause c)) (spaced_singleton _) (spaced_join hactions)

theorem Projection.spaced_of_runFrom {p : Projection} {n m : Nat} {f : Fragment}
    (h : Compile.runFrom p.compile n = (.ok f, m)) : f.Spaced := by
  obtain ⟨fs, hfs, rfl⟩ := Projection.runFrom_compile_eq_ok.mp h
  exact spaced_join (hfs.forall_mem fun _ _ _ _ hr => hr.spaced)

end ItemStore
