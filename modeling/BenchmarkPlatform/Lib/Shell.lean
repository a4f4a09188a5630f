import BenchmarkPlatform.Lib.Mealy

/-!
# How a shell reads a string

The POSIX rules of quoting and token recognition, one character at a time. A reading says of each
character what it is taken for: a literal character of a word, a quoting character, a blank, an
operator, the begin of an expansion, and so on. Words are what lies between blanks and operators,
and a here-document is read up to its delimiter.

A program that builds a command from data has a template in mind: the text it writes itself, with a
hole for each piece of data. `ReadsAs` says that a string is read as its template is, with the
characters of the data as literal characters in the place of the hole. Then the data is part of a
word and the commands are those of the template (`ReadsAs.words_eq`, `ReadsAs.operators_eq`). The
rules at the end take a template apart, and say exactly which data fits a hole in a word and a hole
in double quotes.
-/

namespace BenchmarkPlatform.Lib.Shell

/-! ## Symbols and what they are taken for -/

/-- A character of a template, or the place where the characters of some data go. -/
inductive Sym where
  | char (c : Char)
  | hole (p : List Char)
  deriving DecidableEq

def text (s : List Char) : List Sym := s.map .char

/-- The characters of a symbol. -/
def Sym.chars : Sym → List Sym
  | .char c => [.char c]
  | .hole p => text p

/-- The string a template stands for. -/
def plug (xs : List Sym) : List Sym := xs.flatMap Sym.chars

inductive Role where
  | literal
  /-- A character that quotes others and is removed. -/
  | quoting
  /-- A special character of a file name pattern. -/
  | pattern
  /-- The begin of an expansion, and all that follows it. -/
  | expansion
  | blank
  /-- An operator, or the end of a line. -/
  | operator
  | comment
  | hereDocument
  /-- What does not reach the shell, since a string ends at its first null character. -/
  | lost
  deriving DecidableEq, Repr

abbrev Reading := List (Role × Sym)

/-- Data in the place of a hole. -/
def fill : Role × Sym → Reading
  | (r, .char c) => [(r, .char c)]
  | (r, .hole p) => p.map fun c ↦ (r, .char c)

/-! ## The states of the shell -/

inductive Mode where
  /-- Between two tokens. -/
  | gap
  | word
  /-- Behind a backslash. -/
  | escaped (inWord : Bool)
  | single
  | double
  /-- Behind a backslash in double quotes, of which it is not known yet whether it quotes. -/
  | doubleEscaped
  | comment
  /-- Behind `<`, which may be the first half of `<<`. -/
  | less
  | lessLess
  | body
  | bodyEscaped
  | expansion
  | ended
  deriving DecidableEq

/-- The delimiter of a here-document. -/
structure Delimiter where
  text : List Sym
  quoted : Bool
  stripTabs : Bool
  deriving DecidableEq

structure State where
  mode : Mode
  /-- The delimiter that is being read, behind `<<`. -/
  delimiter : Option Delimiter
  /-- The here-documents that begin with the next line. -/
  pending : List Delimiter
  /-- The line of the here-document so far. -/
  line : List Sym
  deriving DecidableEq

def State.start : State := ⟨.gap, none, [], []⟩

/-- Inside a word, outside quotes. -/
def State.inWord : State := ⟨.word, none, [], []⟩

/-- Inside double quotes. -/
def State.inDouble : State := ⟨.double, none, [], []⟩

/-- Inside double quotes, behind a backslash. -/
def State.inDoubleEscaped : State := ⟨.doubleEscaped, none, [], []⟩

def nul : Char := '\x00'

def blanks : List Char := [' ', '\t']

def operatorChars : List Char := ['&', '|', ';', '<', '>', '(', ')']

def patternChars : List Char := ['*', '?', '[']

/-- The dollar sign and the backquote. -/
def expansionChars : List Char := ['$', '\x60']

/-- What a backslash quotes inside double quotes. -/
def escapable : List Char := expansionChars ++ ['\"', '\\', '\n']

namespace State

variable (s : State)

/-- One more symbol of a word. -/
def push (x : Sym) (mode : Mode) : State :=
  { s with
    mode := mode
    delimiter := s.delimiter.map fun d ↦ { d with text := d.text ++ [x] } }

def quote (mode : Mode) : State :=
  { s with mode := mode, delimiter := s.delimiter.map fun d ↦ { d with quoted := true } }

/-- If a word ends here, it may be the delimiter of a here-document. -/
def endWord (mode : Mode) : State :=
  if s.mode = .word then
    { s with mode := mode, delimiter := none, pending := s.pending ++ s.delimiter.toList }
  else { s with mode := mode }

/-- The here-documents begin behind the line that announces them. -/
def endLine : State :=
  if (s.endWord .gap).pending = [] then s.endWord .gap
  else { s.endWord .gap with mode := .body, line := [] }

/-- The end of a line in a here-document. -/
def endBodyLine : State :=
  match s.pending with
  | [] => { s with mode := .gap, line := [] }
  | d :: ds =>
    if (if d.stripTabs then s.line.dropWhile (· = .char '\t') else s.line) = d.text then
      { s with mode := if ds = [] then .gap else .body, pending := ds, line := [] }
    else { s with mode := .body, line := [] }

/-- A character outside quotes. -/
def unquoted (c : Char) : State × Reading :=
  if c ∈ blanks then (s.endWord .gap, [(.blank, .char c)])
  else if c = '\n' then (s.endLine, [(.operator, .char c)])
  else if c ∈ operatorChars then
    (s.endWord (if c = '<' then .less else .gap), [(.operator, .char c)])
  else if c = '#' ∧ s.mode ≠ .word then ({ s with mode := .comment }, [(.comment, .char c)])
  else if c = '\\' then (s.quote (.escaped (s.mode = .word)), [(.quoting, .char c)])
  else if c = '\'' then (s.quote .single, [(.quoting, .char c)])
  else if c = '\"' then (s.quote .double, [(.quoting, .char c)])
  else if c ∈ expansionChars then ({ s with mode := .expansion }, [(.expansion, .char c)])
  else (s.push (.char c) .word, [(if c ∈ patternChars then .pattern else .literal, .char c)])

/-- A character inside double quotes. -/
def doubleQuoted (c : Char) : State × Reading :=
  if c = '\"' then ({ s with mode := .word }, [(.quoting, .char c)])
  else if c = '\\' then ({ s with mode := .doubleEscaped }, [])
  else if c ∈ expansionChars then ({ s with mode := .expansion }, [(.expansion, .char c)])
  else (s.push (.char c) .double, [(.literal, .char c)])

/-- A character behind a backslash inside double quotes. The end of the line is removed with the
backslash. -/
def behindBackslash (c : Char) : State × Reading :=
  if c = '\n' then
    ({ s with mode := .double }, [(.quoting, .char '\\'), (.quoting, .char c)])
  else if c ∈ escapable then
    (s.push (.char c) .double, [(.quoting, .char '\\'), (.literal, .char c)])
  else ((s.push (.char '\\') .double).push (.char c) .double,
    [(.literal, .char '\\'), (.literal, .char c)])

/-- A character of a here-document. There are expansions in it unless its delimiter was quoted. -/
def inBody (c : Char) : State × Reading :=
  if c = '\n' then (s.endBodyLine, [(.hereDocument, .char c)])
  else if (s.pending.head?.any fun d ↦ !d.quoted) ∧ c ∈ expansionChars then
    ({ s with mode := .expansion }, [(.expansion, .char c)])
  else if (s.pending.head?.any fun d ↦ !d.quoted) ∧ c = '\\' then
    ({ s with mode := .bodyEscaped, line := s.line ++ [.char c] }, [(.hereDocument, .char c)])
  else ({ s with line := s.line ++ [.char c] }, [(.hereDocument, .char c)])

/-- What is still to be said at the end of the string. -/
def flush : Reading :=
  if s.mode = .doubleEscaped then [(.quoting, .char '\\')] else []

/-- One more character. -/
def onChar (c : Char) : State × Reading :=
  if c = nul then ({ s with mode := .ended }, s.flush ++ [(.lost, .char c)])
  else
    match s.mode with
    | .gap | .word => s.unquoted c
    | .escaped inWord =>
      if c = '\n' then
        ({ s with mode := if inWord then .word else .gap }, [(.quoting, .char c)])
      else (s.push (.char c) .word, [(.literal, .char c)])
    | .single =>
      if c = '\'' then ({ s with mode := .word }, [(.quoting, .char c)])
      else (s.push (.char c) .single, [(.literal, .char c)])
    | .double => s.doubleQuoted c
    | .doubleEscaped => s.behindBackslash c
    | .comment =>
      if c = '\n' then (s.endLine, [(.operator, .char c)]) else (s, [(.comment, .char c)])
    | .less =>
      if c = '<' then
        ({ s with mode := .lessLess, delimiter := some ⟨[], false, false⟩ }, [(.operator, .char c)])
      else s.unquoted c
    | .lessLess =>
      if c = '-' then
        ({ s with
          mode := .gap
          delimiter := s.delimiter.map fun d ↦ { d with stripTabs := true } },
          [(.operator, .char c)])
      else s.unquoted c
    | .body => s.inBody c
    | .bodyEscaped =>
      ({ s with mode := .body, line := s.line ++ [.char c] }, [(.hereDocument, .char c)])
    | .expansion => (s, [(.expansion, .char c)])
    | .ended => (s, [(.lost, .char c)])

/-- A hole is read as an ordinary character would be. -/
def onHole (p : List Char) : State × Reading :=
  match s.mode with
  | .gap | .word | .escaped _ | .less | .lessLess =>
    (s.push (.hole p) .word, [(.literal, .hole p)])
  | .single | .double => (s.push (.hole p) s.mode, [(.literal, .hole p)])
  | .doubleEscaped =>
    ((s.push (.char '\\') .double).push (.hole p) .double,
      [(.literal, .char '\\'), (.literal, .hole p)])
  | .comment => (s, [(.comment, .hole p)])
  | .body | .bodyEscaped =>
    ({ s with mode := .body, line := s.line ++ [.hole p] }, [(.hereDocument, .hole p)])
  | .expansion => (s, [(.expansion, .hole p)])
  | .ended => (s, [(.lost, .hole p)])

end State

def step (s : State) : Sym → State × Reading
  | .char c => s.onChar c
  | .hole p => s.onHole p

/-- The state behind some symbols. -/
def after (s : State) (xs : List Sym) : State := (mealyRun step s xs).1

/-- What the symbols are taken for, from a state on. -/
def readFrom (s : State) (xs : List Sym) : Reading :=
  (mealyRun step s xs).2.flatten ++ (after s xs).flush

/-- What the symbols of a string or template are taken for. -/
def reading (xs : List Sym) : Reading := readFrom .start xs

/-! ## Words and operators -/

/-- The character is not part of a word. -/
def Role.separates : Role → Bool
  | .blank | .operator | .comment | .hereDocument | .lost => true
  | .literal | .quoting | .pattern | .expansion => false

/-- What lies between the characters that separate words, empty or not. -/
def words (r : Reading) : List Reading := r.splitOnP fun x ↦ x.1.separates

/-- The operators and ends of lines, which separate the commands. -/
def operators (r : Reading) : Reading := r.filter fun x ↦ x.1 = .operator

/-! ## Strings and templates -/

def Sym.isHole : Sym → Bool
  | .char _ => false
  | .hole _ => true

/-- Nothing here stands for data. -/
def NoHoles (zs : Reading) : Prop := ∀ x ∈ zs, x.2.isHole = false

def literals (p : List Char) : Reading := p.map fun c ↦ (.literal, .char c)

/-- The string is read as its template is: each hole is a literal character of the template, and the
string has the characters of the data as literal characters in its place. -/
structure ReadsAs (s : State) (xs : List Sym) : Prop where
  literal : ∀ x ∈ readFrom s xs, x.2.isHole = true → x.1 = .literal
  readFrom_plug : readFrom s (plug xs) = (readFrom s xs).flatMap fill

/-- What is not a literal character of a word without quotes. -/
def wordSpecials : List Char :=
  [nul, '\n', '\\', '\'', '\"'] ++ blanks ++ operatorChars ++ expansionChars ++ patternChars

/-- What can stand for itself in a word without quotes. -/
def Plain (p : List Char) : Prop := ∀ c ∈ p, c ∉ wordSpecials

/-- What is not a literal character between double quotes, a backslash apart. -/
def doubleSpecials : List Char := [nul, '\"'] ++ expansionChars

/-- What can stand for itself between double quotes. A backslash does so where the next character is
not one that it quotes, and there is a next character. -/
def Quotable : List Char → Prop
  | [] => True
  | c :: p => c ∉ doubleSpecials ∧
      (c = '\\' → (p.head?.any fun d ↦ d ≠ '\\' ∧ d ≠ '\n') = true) ∧ Quotable p

instance : DecidablePred Plain := fun p ↦ List.decidableBAll (· ∉ wordSpecials) p

instance Quotable.decidable : ∀ p, Decidable (Quotable p)
  | [] => isTrue trivial
  | _ :: p =>
    have : Decidable (Quotable p) := Quotable.decidable p
    inferInstanceAs (Decidable (_ ∧ _ ∧ _))

/-- Data that can be quoted can be put together. -/
theorem Quotable.append {p q : List Char} (hp : Quotable p) (hq : Quotable q) :
    Quotable (p ++ q) := by
  induction p with
  | nil => exact hq
  | cons c p ih =>
    obtain ⟨hspecial, hbackslash, hp⟩ := hp
    refine ⟨hspecial, fun hc ↦ ?_, ih hp⟩
    have hhead := hbackslash hc
    rcases p with _ | ⟨d, p⟩
    · cases hhead
    · exact hhead

theorem Plain.quotable {p : List Char} (h : Plain p) : Quotable p := by
  induction p with
  | nil => trivial
  | cons c p ih =>
    obtain ⟨hc, hp⟩ := List.forall_mem_cons.mp h
    refine ⟨fun hspecial ↦ hc ?_, fun hbackslash ↦ absurd ?_ hc, ih hp⟩
    · have hsub : doubleSpecials ⊆ wordSpecials := by decide
      exact hsub hspecial
    · rw [hbackslash]
      decide

/-! ## Reading piece by piece -/

variable {s s' : State} {xs ys : List Sym} {zs zs' : Reading}

theorem readFrom_cons (s : State) (x : Sym) (xs : List Sym) :
    readFrom s (x :: xs) = (step s x).2 ++ readFrom (step s x).1 xs := by
  rw [readFrom, readFrom, after, after, mealyRun_cons, List.flatten_cons, List.append_assoc]

@[simp] theorem noHoles_nil : NoHoles [] := fun _ h ↦ absurd h List.not_mem_nil

@[simp] theorem noHoles_cons_char (r : Role) (c : Char) (zs : Reading) :
    NoHoles ((r, .char c) :: zs) ↔ NoHoles zs := by
  simp [NoHoles, Sym.isHole]

theorem NoHoles.append (h : NoHoles zs) (h' : NoHoles zs') : NoHoles (zs ++ zs') :=
  fun x hx ↦ (List.mem_append.mp hx).elim (h x) (h' x)

theorem NoHoles.flatMap_fill (h : NoHoles zs) : zs.flatMap fill = zs := by
  induction zs with
  | nil => rfl
  | cons x zs ih =>
    obtain ⟨r, y⟩ := x
    cases y with
    | char c => rw [List.flatMap_cons, ih ((noHoles_cons_char r c zs).mp h), fill,
        List.singleton_append]
    | hole p => exact absurd (h _ List.mem_cons_self) (by simp [Sym.isHole])

section NoHoles

variable (s : State) (c : Char)

theorem noHoles_flush : NoHoles s.flush := by
  rw [State.flush]
  split_ifs <;> simp

theorem noHoles_unquoted : NoHoles (s.unquoted c).2 := by
  rw [State.unquoted]
  split_ifs <;> simp

theorem noHoles_doubleQuoted : NoHoles (s.doubleQuoted c).2 := by
  rw [State.doubleQuoted]
  split_ifs <;> simp

theorem noHoles_behindBackslash : NoHoles (s.behindBackslash c).2 := by
  rw [State.behindBackslash]
  split_ifs <;> simp

theorem noHoles_inBody : NoHoles (s.inBody c).2 := by
  rw [State.inBody]
  split_ifs <;> simp

/-- A character of the text is never taken for data. -/
theorem noHoles_onChar : NoHoles (s.onChar c).2 := by
  rw [State.onChar]
  split
  case isTrue => exact (noHoles_flush s).append (by simp)
  case isFalse =>
    split
    case h_1 | h_2 => exact noHoles_unquoted s c
    case h_3 | h_4 | h_7 => split_ifs <;> simp
    case h_5 => exact noHoles_doubleQuoted s c
    case h_6 => exact noHoles_behindBackslash s c
    case h_8 | h_9 =>
      split_ifs
      · simp
      · exact noHoles_unquoted s c
    case h_10 => exact noHoles_inBody s c
    case h_11 | h_12 | h_13 => simp

end NoHoles

/-! ## Taking a template apart -/

theorem readsAs_nil (s : State) : ReadsAs s [] := by
  have hread : readFrom s [] = s.flush := rfl
  constructor
  · intro x hx hhole
    exact absurd hhole (by simp [noHoles_flush s x (hread ▸ hx)])
  · exact (noHoles_flush s).flatMap_fill.symm

theorem readsAs_char (s : State) (c : Char) (xs : List Sym) :
    ReadsAs s (.char c :: xs) ↔ ReadsAs (step s (.char c)).1 xs := by
  have hstep : NoHoles (step s (.char c)).2 := noHoles_onChar s c
  have hplug : readFrom s (plug (.char c :: xs))
      = (step s (.char c)).2 ++ readFrom (step s (.char c)).1 (plug xs) := readFrom_cons s _ _
  constructor
  · rintro ⟨hliteral, hread⟩
    rw [hplug, readFrom_cons, List.flatMap_append, hstep.flatMap_fill] at hread
    rw [readFrom_cons] at hliteral
    exact ⟨fun x hx ↦ hliteral x (List.mem_append_right _ hx), List.append_cancel_left hread⟩
  · rintro ⟨hliteral, hread⟩
    refine ⟨fun x hx hhole ↦ ?_, ?_⟩
    · rw [readFrom_cons] at hx
      rcases List.mem_append.mp hx with hx' | hx'
      · exact absurd hhole (by simp [hstep x hx'])
      · exact hliteral x hx' hhole
    · rw [hplug, readFrom_cons, List.flatMap_append, hstep.flatMap_fill, hread]

/-- **Text of the template** is read as it is, and the rest from the state behind it. -/
theorem readsAs_text {t : List Char} (hafter : after s (text t) = s') :
    ReadsAs s (text t ++ xs) ↔ ReadsAs s' xs := by
  induction t generalizing s with
  | nil =>
    rw [← hafter]
    rfl
  | cons c t ih => exact (readsAs_char s c _).trans (ih hafter)

/-- A template without holes is read as it is. -/
theorem readsAs_of_text (s : State) (t : List Char) : ReadsAs s (text t) := by
  have h : ReadsAs s (text t ++ []) := (readsAs_text rfl).mpr (readsAs_nil _)
  rwa [List.append_nil] at h

/-- At a hole that is reached in a word or in double quotes, all depends on how the data is read. -/
theorem readsAs_hole {p : List Char} (hstep : step s (.hole p) = (s, [(.literal, .hole p)])) :
    ReadsAs s (.hole p :: xs) ↔
      (∀ x ∈ readFrom s xs, x.2.isHole = true → x.1 = .literal) ∧
        readFrom s (text p ++ plug xs) = literals p ++ (readFrom s xs).flatMap fill := by
  have hread : readFrom s (.hole p :: xs) = (.literal, .hole p) :: readFrom s xs := by
    rw [readFrom_cons, hstep, List.singleton_append]
  constructor
  · rintro ⟨hliteral, hplug⟩
    rw [hread] at hliteral hplug
    exact ⟨fun x hx ↦ hliteral x (List.mem_cons_of_mem _ hx), hplug⟩
  · rintro ⟨hliteral, hplug⟩
    refine ⟨fun x hx hhole ↦ ?_, ?_⟩
    · rw [hread] at hx
      rcases List.mem_cons.mp hx with rfl | hx'
      · rfl
      · exact hliteral x hx' hhole
    · rw [hread]
      exact hplug

/-! ## Data in a word -/

theorem head?_step_inWord {c : Char} (h : c ∈ wordSpecials) :
    ((step .inWord (.char c)).2.head?.any fun x ↦ x ≠ (.literal, .char c)) = true := by
  have hall : (wordSpecials.all fun c ↦
      (step .inWord (.char c)).2.head?.any fun x ↦ x ≠ (.literal, .char c)) = true := by
    decide +kernel
  exact List.all_eq_true.mp hall c h

theorem step_inWord {c : Char} (h : c ∉ wordSpecials) :
    step .inWord (.char c) = (.inWord, [(.literal, .char c)]) := by
  simp only [wordSpecials, blanks, operatorChars, expansionChars, patternChars, List.mem_append,
    List.mem_cons, not_or] at h
  simp [step, State.onChar, State.unquoted, State.inWord, State.push, blanks, operatorChars,
    expansionChars, patternChars, h]

/-- A reading that begins with another symbol. -/
theorem append_ne_cons_of_head? {x : Role × Sym}
    (h : (zs.head?.any fun y ↦ y ≠ x) = true) (ys : Reading) : zs ++ ys ≠ x :: zs' := by
  cases zs with
  | nil => simp at h
  | cons y zs =>
    intro heq
    exact absurd (List.cons.inj heq).1 (by simpa using h)

/-- In a word, the characters of the data are literal just when all of them are plain. -/
theorem readFrom_inWord_iff (p : List Char) :
    readFrom .inWord (text p ++ ys) = literals p ++ zs ↔
      Plain p ∧ readFrom .inWord ys = zs := by
  induction p with
  | nil => exact (and_iff_right fun c h ↦ absurd h List.not_mem_nil).symm
  | cons c p ih =>
    have hcons : readFrom .inWord (text (c :: p) ++ ys)
        = (step .inWord (.char c)).2 ++ readFrom (step .inWord (.char c)).1 (text p ++ ys) :=
      readFrom_cons _ _ _
    have hplain : Plain (c :: p) ↔ c ∉ wordSpecials ∧ Plain p := List.forall_mem_cons
    rw [hcons, hplain]
    by_cases h : c ∈ wordSpecials
    · exact iff_of_false (append_ne_cons_of_head? (head?_step_inWord h) _) fun h' ↦ h'.1.1 h
    · rw [step_inWord h, and_iff_right h, ← ih]
      exact List.cons_inj_right _

/-- **A hole in a word** fits plain data. -/
theorem readsAs_inWord (p : List Char) (xs : List Sym) :
    ReadsAs .inWord (.hole p :: xs) ↔ Plain p ∧ ReadsAs .inWord xs := by
  rw [readsAs_hole rfl, readFrom_inWord_iff]
  constructor
  · rintro ⟨hliteral, hplain, hread⟩
    exact ⟨hplain, hliteral, hread⟩
  · rintro ⟨hplain, hliteral, hread⟩
    exact ⟨hliteral, hplain, hread⟩

/-! ## Data in double quotes -/

theorem head?_step_inDouble {c : Char} (h : c ∈ doubleSpecials) :
    ((step .inDouble (.char c)).2.head?.any fun x ↦ x ≠ (.literal, .char c)) = true := by
  have hall : (doubleSpecials.all fun c ↦
      (step .inDouble (.char c)).2.head?.any fun x ↦ x ≠ (.literal, .char c)) = true := by
    decide +kernel
  exact List.all_eq_true.mp hall c h

theorem head?_step_inDoubleEscaped {c : Char} (h : c ∈ nul :: escapable) :
    ((step .inDoubleEscaped (.char c)).2.head?.any fun x ↦ x ≠ (.literal, .char '\\')) = true := by
  have hall : ((nul :: escapable).all fun c ↦
      (step .inDoubleEscaped (.char c)).2.head?.any fun x ↦ x ≠ (.literal, .char '\\')) = true := by
    decide +kernel
  exact List.all_eq_true.mp hall c h

theorem step_inDouble {c : Char} (h : c ∉ doubleSpecials) (hslash : c ≠ '\\') :
    step .inDouble (.char c) = (.inDouble, [(.literal, .char c)]) := by
  simp only [doubleSpecials, expansionChars, List.mem_append, List.mem_cons, not_or] at h
  simp [step, State.onChar, State.doubleQuoted, State.inDouble, State.push, expansionChars, h,
    hslash]

theorem step_inDoubleEscaped {c : Char} (h : c ∉ nul :: escapable) :
    step .inDoubleEscaped (.char c)
      = (.inDouble, [(.literal, .char '\\'), (.literal, .char c)]) := by
  simp only [escapable, expansionChars, List.mem_append, List.mem_cons, not_or] at h
  simp [step, State.onChar, State.behindBackslash, State.inDouble, State.inDoubleEscaped,
    State.push, escapable, expansionChars, h]

theorem mem_escapable_iff {c : Char} :
    c ∈ nul :: escapable ↔ c ∈ doubleSpecials ∨ c = '\\' ∨ c = '\n' := by
  simp only [escapable, doubleSpecials, expansionChars, List.mem_append, List.mem_cons,
    List.not_mem_nil, or_false]
  tauto

/-- In double quotes, the characters of the data are literal just when the data can be quoted. The
second half is about data behind a backslash: the backslash is literal when the next character is
not one that it quotes, so the two halves are proved together. -/
theorem readFrom_inDouble_iff (p : List Char) :
    (readFrom .inDouble (text p ++ .char '\"' :: ys) = literals p ++ (.quoting, .char '\"') :: zs ↔
      Quotable p ∧ readFrom .inWord ys = zs) ∧
    (readFrom .inDoubleEscaped (text p ++ .char '\"' :: ys)
        = (.literal, .char '\\') :: (literals p ++ (.quoting, .char '\"') :: zs) ↔
      ((p.head?.any fun d ↦ d ≠ '\\' ∧ d ≠ '\n') = true ∧ Quotable p) ∧
        readFrom .inWord ys = zs) := by
  induction p with
  -- behind a backslash the closing quote would be quoted, so such data does not fit
  | nil =>
    constructor
    · rw [and_iff_right (show Quotable [] from trivial)]
      exact List.cons_inj_right _
    · have hquote : '\"' ∈ nul :: escapable := by decide
      refine iff_of_false ?_ fun h ↦ absurd h.1.1 (by simp)
      exact append_ne_cons_of_head? (head?_step_inDoubleEscaped hquote) _
  | cons c p ih =>
    have hquotable : Quotable (c :: p) ↔ c ∉ doubleSpecials ∧
        (c = '\\' → (p.head?.any fun d ↦ d ≠ '\\' ∧ d ≠ '\n') = true) ∧ Quotable p := Iff.rfl
    have hcons (s : State) : readFrom s (text (c :: p) ++ .char '\"' :: ys)
        = (step s (.char c)).2 ++ readFrom (step s (.char c)).1 (text p ++ .char '\"' :: ys) :=
      readFrom_cons _ _ _
    rw [hcons, hcons, hquotable]
    constructor
    · by_cases hspecial : c ∈ doubleSpecials
      · exact iff_of_false (append_ne_cons_of_head? (head?_step_inDouble hspecial) _)
          fun h ↦ h.1.1 hspecial
      by_cases hslash : c = '\\'
      -- a backslash: the second half decides
      · subst hslash
        rw [and_iff_right hspecial, forall_prop_of_true rfl, ← ih.2]
        rfl
      · rw [step_inDouble hspecial hslash, and_iff_right hspecial,
          and_iff_right (fun h ↦ absurd h hslash), ← ih.1]
        exact List.cons_inj_right _
    · by_cases hquoted : c ∈ nul :: escapable
      · refine iff_of_false (append_ne_cons_of_head? (head?_step_inDoubleEscaped hquoted) _) ?_
        rintro ⟨⟨hnext, hc, -⟩, -⟩
        -- what a backslash quotes is special itself, a second backslash or a line end
        rcases mem_escapable_iff.mp hquoted with h | rfl | rfl
        · exact hc h
        · exact absurd hnext (by simp)
        · exact absurd hnext (by simp)
      -- any other character: the backslash before it stands for itself
      · have hspecial : c ∉ doubleSpecials := fun h ↦ hquoted (mem_escapable_iff.mpr (.inl h))
        have hslash : c ≠ '\\' := fun h ↦ hquoted (mem_escapable_iff.mpr (.inr (.inl h)))
        have hline : c ≠ '\n' := fun h ↦ hquoted (mem_escapable_iff.mpr (.inr (.inr h)))
        have hnext : ((c :: p).head?.any fun d ↦ d ≠ '\\' ∧ d ≠ '\n') = true := by
          simp [hslash, hline]
        rw [step_inDoubleEscaped hquoted, and_iff_right hnext, and_iff_right hspecial,
          and_iff_right (fun h ↦ absurd h hslash), ← ih.1]
        exact (List.cons_inj_right _).trans (List.cons_inj_right _)

/-- **A hole in double quotes** fits data that can be quoted. -/
theorem readsAs_inDouble (p : List Char) (xs : List Sym) :
    ReadsAs .inDouble (.hole p :: .char '\"' :: xs) ↔ Quotable p ∧ ReadsAs .inWord xs := by
  have hclose (ys : List Sym) :
      readFrom .inDouble (.char '\"' :: ys) = (.quoting, .char '\"') :: readFrom .inWord ys :=
    readFrom_cons _ _ _
  have hplug : text p ++ plug (.char '\"' :: xs) = text p ++ .char '\"' :: plug xs := rfl
  rw [readsAs_hole rfl, hclose, hplug, List.flatMap_cons, fill, List.singleton_append,
    (readFrom_inDouble_iff p).1]
  constructor
  · rintro ⟨hliteral, hquotable, hread⟩
    exact ⟨hquotable, fun x hx ↦ hliteral x (List.mem_cons_of_mem _ hx), hread⟩
  · rintro ⟨hquotable, hliteral, hread⟩
    refine ⟨fun x hx hhole ↦ ?_, hquotable, hread⟩
    rcases List.mem_cons.mp hx with rfl | hx'
    · exact absurd hhole Bool.false_ne_true
    · exact hliteral x hx' hhole

/-! ## The words and the commands of a template -/

theorem words_cons_of_separates {x : Role × Sym} (h : x.1.separates = true) (r : Reading) :
    words (x :: r) = [] :: words r := by
  rw [words, List.splitOnP_cons_eq_if_modifyHead, if_pos h, words]

theorem words_cons_of_not_separates {x : Role × Sym} (h : x.1.separates = false) (r : Reading) :
    words (x :: r) = (words r).modifyHead (x :: ·) := by
  rw [words, List.splitOnP_cons_eq_if_modifyHead, if_neg (by simp [h]), words]

/-- Literal characters stay in one word. -/
theorem words_literals_append (p : List Char) (r : Reading) :
    words (literals p ++ r) = (words r).modifyHead (literals p ++ ·) := by
  induction p with
  | nil => exact (congrFun List.modifyHead_id (words r)).symm
  | cons c p ih =>
    have hcons : words (literals (c :: p) ++ r)
        = (words (literals p ++ r)).modifyHead ((.literal, .char c) :: ·) :=
      words_cons_of_not_separates rfl _
    rw [hcons, ih, List.modifyHead_modifyHead]
    rfl

theorem map_modifyHead_fill (x : Role × Sym) (l : List Reading) :
    (l.modifyHead (x :: ·)).map (·.flatMap fill)
      = (l.map (·.flatMap fill)).modifyHead (fill x ++ ·) := by
  cases l <;> rfl

theorem words_flatMap_fill {r : Reading} (h : ∀ x ∈ r, x.2.isHole = true → x.1 = .literal) :
    words (r.flatMap fill) = (words r).map (·.flatMap fill) := by
  induction r with
  | nil => rfl
  | cons x r ih =>
    have ih' := ih fun y hy ↦ h y (List.mem_cons_of_mem _ hy)
    obtain ⟨role, y⟩ := x
    rw [List.flatMap_cons]
    cases y with
    | char c =>
      -- a character of the template separates as it did before
      cases hrole : role.separates with
      | true =>
        have hfill :
            words (fill (role, .char c) ++ r.flatMap fill) = [] :: words (r.flatMap fill) :=
          words_cons_of_separates hrole _
        rw [hfill, words_cons_of_separates hrole, ih']
        rfl
      | false =>
        have hfill : words (fill (role, .char c) ++ r.flatMap fill)
            = (words (r.flatMap fill)).modifyHead ((role, .char c) :: ·) :=
          words_cons_of_not_separates hrole _
        rw [hfill, words_cons_of_not_separates hrole, ih', map_modifyHead_fill]
        rfl
    | hole p =>
      obtain rfl : role = .literal := h _ List.mem_cons_self rfl
      have hfill : words (fill (.literal, .hole p) ++ r.flatMap fill)
          = (words (r.flatMap fill)).modifyHead (literals p ++ ·) := words_literals_append p _
      rw [hfill, words_cons_of_not_separates rfl, ih', map_modifyHead_fill]
      rfl

/-- **Words.** They are those of the template, with the data in its place inside of them. -/
theorem ReadsAs.words_eq (h : ReadsAs s xs) :
    words (readFrom s (plug xs)) = (words (readFrom s xs)).map (·.flatMap fill) := by
  rw [h.readFrom_plug, words_flatMap_fill h.literal]

theorem operators_flatMap_fill {r : Reading} (h : ∀ x ∈ r, x.2.isHole = true → x.1 = .literal) :
    operators (r.flatMap fill) = operators r := by
  induction r with
  | nil => rfl
  | cons x r ih =>
    have ih' : List.filter _ (r.flatMap fill) = List.filter _ r :=
      ih fun y hy ↦ h y (List.mem_cons_of_mem _ hy)
    obtain ⟨role, y⟩ := x
    rw [operators, operators, List.flatMap_cons, List.filter_append, ih']
    cases y with
    | char c =>
      rw [fill, ← List.filter_append]
      rfl
    | hole p =>
      obtain rfl : role = .literal := h _ List.mem_cons_self rfl
      have hnone : List.filter (fun x : Role × Sym ↦ decide (x.1 = .operator))
          (fill (.literal, .hole p)) = [] := by
        rw [List.filter_eq_nil_iff, fill]
        intro x hx
        obtain ⟨c, -, rfl⟩ := List.mem_map.mp hx
        simp
      rw [hnone, List.nil_append, List.filter_cons_of_neg (by simp)]

/-- **Commands.** The operators, and with them the number of commands, are those of the template. -/
theorem ReadsAs.operators_eq (h : ReadsAs s xs) :
    operators (readFrom s (plug xs)) = operators (readFrom s xs) := by
  rw [h.readFrom_plug, operators_flatMap_fill h.literal]

end BenchmarkPlatform.Lib.Shell
