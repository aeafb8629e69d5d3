import Mathlib.Data.List.Basic
import SearchSync.Text
import SearchSync.Trigger.Basic

/-!
# Statements as a database reads them

A catalog of tables, procedures, functions and triggers, and a reader of the texts of statements
that knows nothing of how they were written: names with or without quotes, then what is created or
dropped and what has to exist for it.
-/

namespace SearchSync.Catalog

/-- What a name stands for. In one dialect the name of a trigger is unique in the database, in the
other it belongs to a table. -/
inductive Object
  | table (name : String)
  | procedure (name : String)
  | function (name : String)
  | trigger (name : String) (table : Option String)
  deriving DecidableEq, Repr

inductive Entry
  | table (name : String)
  | procedure (name text : String)
  | function (name text : String)
  | trigger (name table text : String)
  | callingTrigger (name table function text : String)
  deriving DecidableEq, Repr

namespace Entry

def object : Entry → Object
  | .table name => .table name
  | .procedure name _ => .procedure name
  | .function name _ => .function name
  | .trigger name _ _ => .trigger name none
  | .callingTrigger name t _ _ => .trigger name (some t)

/-- What has to exist as long as the entry does. -/
def needs : Entry → List Object
  | .table _ | .procedure _ _ | .function _ _ => []
  | .trigger _ t _ => [.table t]
  | .callingTrigger _ t f _ => [.table t, .function f]

theorem eq_table {e : Entry} {name : String} (h : e.object = .table name) : e = .table name := by
  cases e <;> cases h
  rfl

theorem not_needs_trigger (e : Entry) (name : String) (t : Option String) :
    .trigger name t ∉ e.needs := by
  cases e <;> simp [needs]

end Entry

/-- What happens if there already is what is to be created. -/
inductive Clause
  | plain
  | ifAbsent
  | replacing
  deriving DecidableEq, Repr

inductive Command
  | create (clause : Clause) (entry : Entry)
  | drop (ifExists : Bool) (object : Object)
  deriving DecidableEq, Repr

def objects (c : List Entry) : List Object := c.map Entry.object

def without (c : List Entry) (o : Object) : List Entry := c.filter fun e => e.object ≠ o

def Command.run? (c : List Entry) : Command → Option (List Entry)
  | .create clause e =>
    if ∀ o ∈ e.needs, o ∈ objects c then
      if e.object ∈ objects c then
        match clause with
        | .plain => none
        | .ifAbsent => some c
        | .replacing => some (without c e.object ++ [e])
      else some (c ++ [e])
    else none
  | .drop ifExists o =>
    if o ∈ objects c then
      if ∃ e ∈ c, o ∈ e.needs then none else some (without c o)
    else if ifExists then some c else none

section Effect

variable {c : List Entry}

theorem mem_objects {o : Object} : o ∈ objects c ↔ ∃ e ∈ c, e.object = o := List.mem_map

theorem mem_without {o : Object} {x : Entry} : x ∈ without c o ↔ x ∈ c ∧ x.object ≠ o := by
  rw [without, List.mem_filter, decide_eq_true_eq]

theorem run?_create {clause : Clause} {e : Entry} (hneeds : ∀ o ∈ e.needs, o ∈ objects c)
    (hplain : clause = .plain → e.object ∉ objects c)
    (hsame : clause = .ifAbsent → ∀ x ∈ c, x.object = e.object → x = e) :
    ∃ c', (Command.create clause e).run? c = some c' ∧
      ∀ x, x ∈ c' ↔ x = e ∨ x ∈ c ∧ x.object ≠ e.object := by
  unfold Command.run?
  simp only [if_pos hneeds]
  by_cases hpresent : e.object ∈ objects c
  · rw [if_pos hpresent]
    cases clause with
    | plain => exact absurd hpresent (hplain rfl)
    | ifAbsent =>
      refine ⟨c, rfl, fun x => ⟨fun hx => ?_, ?_⟩⟩
      · by_cases heq : x.object = e.object
        · exact Or.inl (hsame rfl x hx heq)
        · exact Or.inr ⟨hx, heq⟩
      · rintro (rfl | ⟨hx, -⟩)
        · obtain ⟨y, hy, heq⟩ := mem_objects.mp hpresent
          rwa [← hsame rfl y hy heq]
        · exact hx
    | replacing =>
      refine ⟨_, rfl, fun x => ?_⟩
      rw [List.mem_append, mem_without, List.mem_singleton, or_comm]
  · rw [if_neg hpresent]
    refine ⟨_, rfl, fun x => ?_⟩
    have hother (hx : x ∈ c) : x.object ≠ e.object :=
      fun heq => hpresent (mem_objects.mpr ⟨x, hx, heq⟩)
    rw [List.mem_append, List.mem_singleton, or_comm]
    constructor
    · rintro (rfl | hx)
      · exact Or.inl rfl
      · exact Or.inr ⟨hx, hother hx⟩
    · rintro (rfl | ⟨hx, -⟩)
      · exact Or.inl rfl
      · exact Or.inr hx

theorem objects_of_create {clause : Clause} {e : Entry} {c' : List Entry}
    (h : (Command.create clause e).run? c = some c') :
    (clause = .plain → e.object ∉ objects c) ∧
      ∀ o, o ∈ objects c' ↔ o = e.object ∨ o ∈ objects c := by
  unfold Command.run? at h
  simp only at h
  split_ifs at h with hneeds hpresent
  · cases clause with
    | plain => cases h
    | ifAbsent =>
      cases h
      refine ⟨nofun, fun o => ⟨Or.inr, ?_⟩⟩
      rintro (rfl | ho)
      · exact hpresent
      · exact ho
    | replacing =>
      cases h
      refine ⟨nofun, fun o => ?_⟩
      simp only [mem_objects, List.mem_append, List.mem_singleton, mem_without]
      constructor
      · rintro ⟨x, ⟨hx, -⟩ | rfl, rfl⟩
        · exact Or.inr ⟨x, hx, rfl⟩
        · exact Or.inl rfl
      · rintro (rfl | ⟨x, hx, rfl⟩)
        · exact ⟨e, Or.inr rfl, rfl⟩
        · by_cases hsame : x.object = e.object
          · exact ⟨e, Or.inr rfl, hsame.symm⟩
          · exact ⟨x, Or.inl ⟨hx, hsame⟩, rfl⟩
  · cases h
    refine ⟨fun _ => hpresent, fun o => ?_⟩
    simp only [objects, List.map_append, List.mem_append, List.map_singleton, List.mem_singleton,
      or_comm]

theorem run?_drop {o : Object} (hfree : ∀ x ∈ c, o ∉ x.needs) :
    ∃ c', (Command.drop true o).run? c = some c' ∧ ∀ x, x ∈ c' ↔ x ∈ c ∧ x.object ≠ o := by
  simp only [Command.run?]
  by_cases hpresent : o ∈ objects c
  · rw [if_pos hpresent, if_neg (by simpa using hfree)]
    exact ⟨_, rfl, fun x => mem_without⟩
  · rw [if_neg hpresent]
    refine ⟨c, rfl, fun x => ⟨fun hx => ⟨hx, ?_⟩, And.left⟩⟩
    exact fun heq => hpresent (mem_objects.mpr ⟨x, hx, heq⟩)

end Effect

def isMark (c : Char) : Bool := c == '(' || c == ')' || c == ',' || c == ';'

def isQuote (c : Char) : Bool := c == '\x60' || c == '\x22'

def isPlain (c : Char) : Bool := !(Text.isBlank c || isMark c || isQuote c)

inductive Token
  | word (text : String)
  | quoted (text : String)
  | mark (c : Char)
  deriving DecidableEq, Repr

namespace Token

def next? (text : List Char) : Option (Token × List Char) :=
  match text.dropWhile Text.isBlank with
  | [] => none
  | c :: rest =>
    if isMark c then some (.mark c, rest)
    else if isQuote c then
      some (.quoted (.ofList (rest.takeWhile (· != c))), (rest.dropWhile (· != c)).tail)
    else some (.word (.ofList (c :: rest.takeWhile isPlain)), rest.dropWhile isPlain)

def name? : Token → Option String
  | .word s | .quoted s => some s
  | .mark _ => none

end Token

def tokens : Nat → List Char → List Token
  | 0, _ => []
  | n + 1, text =>
    match Token.next? text with
    | some (t, rest) => t :: tokens n rest
    | none => []

def skip (words : List String) (ts : List Token) : Bool × List Token :=
  if (words.map Token.word).isPrefixOf ts then (true, ts.drop words.length) else (false, ts)

def created? (text : String) (clause : Clause) : List Token → Option Command
  | .word "TABLE" :: ts =>
    match skip ["IF", "NOT", "EXISTS"] ts with
    | (absent, t :: _) =>
      t.name?.map fun name => .create (if absent then .ifAbsent else clause) (.table name)
    | _ => none
  | .word "PROCEDURE" :: t :: _ => t.name?.map fun name => .create clause (.procedure name text)
  | .word "FUNCTION" :: t :: _ => t.name?.map fun name => .create clause (.function name text)
  | .word "TRIGGER" :: t :: .word _ :: .word _ :: .word "ON" :: table :: .word "FOR" ::
      .word "EACH" :: .word "ROW" :: body =>
    match body with
    | .word "EXECUTE" :: .word "PROCEDURE" :: f :: _ =>
      return .create clause (.callingTrigger (← t.name?) (← table.name?) (← f.name?) text)
    | _ => return .create clause (.trigger (← t.name?) (← table.name?) text)
  | _ => none

def dropped? (ifExists : Bool) : String → List Token → Option Command
  | "TABLE", t :: _ => t.name?.map fun name => .drop ifExists (.table name)
  | "PROCEDURE", t :: _ => t.name?.map fun name => .drop ifExists (.procedure name)
  | "FUNCTION", t :: _ => t.name?.map fun name => .drop ifExists (.function name)
  | "TRIGGER", t :: .word "ON" :: table :: _ =>
    return .drop ifExists (.trigger (← t.name?) (some (← table.name?)))
  | "TRIGGER", t :: _ => t.name?.map fun name => .drop ifExists (.trigger name none)
  | _, _ => none

def Command.ofTokens? (text : String) : List Token → Option Command
  | .word "CREATE" :: ts =>
    match skip ["OR", "REPLACE"] ts with
    | (replacing, ts) => created? text (if replacing then .replacing else .plain) ts
  | .word "DROP" :: .word kind :: ts =>
    match skip ["IF", "EXISTS"] ts with
    | (ifExists, ts) => dropped? ifExists kind ts
  | _ => none

/-- What the text of a statement says. No statement has more than thirteen tokens in its head. -/
def Command.read? (text : String) : Option Command := ofTokens? text (tokens 13 text.toList)

def nameToken (name : String) : Token :=
  match name.toList with
  | [] => .word name
  | q :: rest => if isQuote q then .quoted (.ofList rest.dropLast) else .word name

def bare (name : String) : String := (nameToken name).name?.getD name

def Plain (name : String) : Prop := name.toList ≠ [] ∧ name.toList.all isPlain

instance (name : String) : Decidable (Plain name) := inferInstanceAs (Decidable (_ ∧ _))

def Quoted (name : String) : Prop :=
  ∃ q inside, isQuote q ∧ q ∉ inside ∧ name.toList = q :: (inside ++ [q])

def Nameable (name : String) : Prop := Plain name ∨ Quoted name

section Names

variable {name : String}

theorem name?_nameToken (name : String) : (nameToken name).name? = some (bare name) := by
  unfold bare nameToken
  split
  · rfl
  · split <;> rfl

theorem not_quote_of_plain {c : Char} (h : isPlain c) : isQuote c = false := by
  simp only [isPlain, Bool.not_eq_true', Bool.or_eq_false_iff] at h
  exact h.2

theorem nameToken_of_plain (h : Plain name) : nameToken name = .word name := by
  unfold nameToken
  obtain ⟨-, hplain⟩ := h
  rw [List.all_eq_true] at hplain
  split
  · rfl
  · rename_i q rest hlist
    rw [if_neg]
    rw [not_quote_of_plain (hplain q (by rw [hlist]; exact List.mem_cons_self))]
    decide

theorem bare_of_plain (h : Plain name) : bare name = name := by
  rw [bare, nameToken_of_plain h]
  rfl

/-- A text goes on in a way that ends a name without quotes. -/
def Ends (rest : List Char) : Prop := ∀ c ∈ rest.head?, isPlain c = false

theorem takeWhile_of_ends {w rest : List Char} (hplain : ∀ c ∈ w, isPlain c)
    (hends : Ends rest) : (w ++ rest).takeWhile isPlain = w := by
  rw [List.takeWhile_append_of_pos hplain]
  cases rest with
  | nil => simp
  | cons c rest => simp [hends c rfl]

theorem dropWhile_of_ends {w rest : List Char} (hplain : ∀ c ∈ w, isPlain c)
    (hends : Ends rest) : (w ++ rest).dropWhile isPlain = rest := by
  rw [List.dropWhile_append_of_pos hplain]
  cases rest with
  | nil => rfl
  | cons c rest => simp [hends c rfl]

theorem next?_plain (h : Plain name) {rest : List Char} (hends : Ends rest) :
    Token.next? (name.toList ++ rest) = some (.word name, rest) := by
  obtain ⟨hne, hplain⟩ := h
  obtain ⟨c, w, hlist⟩ := List.exists_cons_of_ne_nil hne
  rw [hlist, List.all_eq_true] at hplain
  obtain ⟨hc, hw⟩ := List.forall_mem_cons.mp hplain
  have hname : name = .ofList (c :: w) := by rw [← hlist, String.ofList_toList]
  simp only [isPlain, Bool.not_eq_true', Bool.or_eq_false_iff] at hc
  obtain ⟨⟨hblank, hmark⟩, hquote⟩ := hc
  rw [hlist, List.cons_append, Token.next?, List.dropWhile_cons_of_neg (by simp [hblank])]
  simp only [hmark, hquote, takeWhile_of_ends hw hends, dropWhile_of_ends hw hends, ← hname,
    Bool.false_eq_true, if_false]

theorem next?_quoted (h : Quoted name) (rest : List Char) :
    Token.next? (name.toList ++ rest) = some (nameToken name, rest) := by
  obtain ⟨q, inside, hq, hinside, hlist⟩ := h
  have hother : ∀ c ∈ inside, (c != q) = true := by
    intro c hc
    rw [bne_iff_ne]
    rintro rfl
    exact hinside hc
  have hblank : Text.isBlank q = false ∧ isMark q = false := by
    simp only [isQuote, Bool.or_eq_true, beq_iff_eq] at hq
    rcases hq with rfl | rfl <;> decide
  have htoken : nameToken name = .quoted (.ofList inside) := by
    rw [nameToken, hlist]
    simp only [hq, if_true, List.dropLast_concat]
  rw [htoken, hlist, List.cons_append, Token.next?,
    List.dropWhile_cons_of_neg (by simp [hblank.1])]
  simp only [hblank.2, hq, Bool.false_eq_true, if_false, if_true, List.append_assoc,
    List.takeWhile_append_of_pos hother, List.dropWhile_append_of_pos hother]
  simp

theorem next?_name (h : Nameable name) {rest : List Char} (hends : Ends rest) :
    Token.next? (name.toList ++ rest) = some (nameToken name, rest) := by
  rcases h with hplain | hquoted
  · rw [next?_plain hplain hends, nameToken_of_plain hplain]
  · exact next?_quoted hquoted rest

theorem tokens_name (h : Nameable name) {rest : List Char} (hends : Ends rest) (n : Nat) :
    tokens (n + 1) (name.toList ++ rest) = nameToken name :: tokens n rest := by
  rw [tokens, next?_name h hends]

theorem ends_cons {c : Char} (rest : List Char) (h : isPlain c = false) : Ends (c :: rest) := by
  rintro d ⟨⟩
  exact h

end Names

end Catalog

open Catalog

namespace Statement

def command (st : Statement) : Command :=
  match st with
  | .createCounter _ t => .create .ifAbsent (.table (bare t))
  | .dropCounter t => .drop true (.table (bare t))
  | .createProcedure name _ => .create .plain (.procedure (bare name) st.text)
  | .dropProcedure name => .drop true (.procedure (bare name))
  | .createFunction name _ => .create .plain (.function (bare name) st.text)
  | .createTriggerFunction name _ => .create .replacing (.function (bare name) st.text)
  | .dropFunction name => .drop true (.function (bare name))
  | .createTrigger name _ t _ => .create .plain (.trigger (bare name) (bare t) st.text)
  | .createCallingTrigger name _ t f =>
    .create .plain (.callingTrigger (bare name) (bare t) (bare f) st.text)
  | .dropTrigger name => .drop true (.trigger (bare name) none)
  | .dropTriggerOn name t => .drop true (.trigger (bare name) (some (bare t)))

def names : Statement → List String
  | .createCounter _ t | .dropCounter t => [t]
  | .createProcedure name _ | .dropProcedure name | .createFunction name _
  | .createTriggerFunction name _ | .dropFunction name | .dropTrigger name => [name]
  | .createTrigger name _ t _ | .dropTriggerOn name t => [name, t]
  | .createCallingTrigger name _ t f => [name, t, f]

section Read

variable {name t : String} {rest : List Char}

theorem toList_head (head name tail : String) :
    (head ++ name ++ tail).toList = head.toList ++ (name.toList ++ tail.toList) := by
  rw [String.toList_append, String.toList_append, List.append_assoc]

theorem toList_more {s : String} {head name tail : List Char}
    (h : s.toList = head ++ (name ++ tail)) (more : String) :
    (s ++ more).toList = head ++ (name ++ (tail ++ more.toList)) := by
  rw [String.toList_append, h, List.append_assoc, List.append_assoc]

theorem tokens_head {text : List Char} {head : String} (ws : List Token) {n : Nat}
    (hname : Nameable name) (htext : text = head.toList ++ (name.toList ++ rest))
    (hends : Ends rest)
    (hwords : ∀ rest, tokens 13 (head.toList ++ rest) = ws ++ tokens (n + 1) (' ' :: rest)) :
    tokens 13 text = ws ++ nameToken name :: tokens n rest := by
  have hat : tokens (n + 1) (' ' :: (name.toList ++ rest)) = nameToken name :: tokens n rest :=
    tokens_name hname hends n
  rw [htext, hwords, hat]

theorem read?_head {st : Statement} {head : String} (ws : List Token) {n : Nat}
    (command : String → Command) (hname : Nameable name)
    (htext : st.text.toList = head.toList ++ (name.toList ++ rest)) (hends : Ends rest)
    (hwords : ∀ rest, tokens 13 (head.toList ++ rest) = ws ++ tokens (n + 1) (' ' :: rest))
    (hread : ∀ t, Command.ofTokens? st.text (ws ++ t :: tokens n rest) = t.name?.map command) :
    Command.read? st.text = some (command (bare name)) := by
  rw [Command.read?, tokens_head ws hname htext hends hwords, hread, name?_nameToken]
  rfl

theorem tokens_trigger {text : List Char} {kind : ChangeKind} (hname : Nameable name)
    (ht : Nameable t)
    (htext : text = "CREATE TRIGGER ".toList ++ (name.toList ++ (" AFTER ".toList ++
      (kind.name.toList ++ (" ON ".toList ++ (t.toList ++ rest)))))) (hends : Ends rest) :
    tokens 13 text = .word "CREATE" :: .word "TRIGGER" :: nameToken name :: .word "AFTER" ::
      .word kind.name :: .word "ON" :: nameToken t :: tokens 6 rest := by
  have hkind (rest : List Char) :
      tokens 10 (" AFTER ".toList ++ (kind.name.toList ++ (" ON ".toList ++ rest))) =
        .word "AFTER" :: .word kind.name :: .word "ON" :: tokens 7 (' ' :: rest) := by
    cases kind <;> rfl
  have hat : tokens 7 (' ' :: (t.toList ++ rest)) = nameToken t :: tokens 6 rest :=
    tokens_name ht hends 6
  rw [tokens_head [.word "CREATE", .word "TRIGGER"] hname htext (ends_cons _ rfl)
    fun _ => rfl, hkind, hat]
  rfl

end Read

theorem read?_text (st : Statement) (h : ∀ name ∈ st.names, Nameable name) :
    Command.read? st.text = some st.command := by
  cases st with
  | createCounter d t =>
    exact read?_head [.word "CREATE", .word "TABLE", .word "IF", .word "NOT",
      .word "EXISTS"] (fun t => .create .ifAbsent (.table t)) (h t List.mem_cons_self)
      (toList_more (toList_more (toList_head _ t " (\n    id ") _) _) (ends_cons _ rfl)
      (fun _ => rfl) fun _ => rfl
  | dropCounter t =>
    exact read?_head [.word "DROP", .word "TABLE", .word "IF", .word "EXISTS"]
      (fun t => .drop true (.table t)) (h t List.mem_cons_self)
      (toList_head _ t ";") (ends_cons _ rfl) (fun _ => rfl) fun _ => rfl
  | createProcedure name counter =>
    exact read?_head [.word "CREATE", .word "PROCEDURE"]
      (fun t => .create .plain (.procedure t (createProcedure name counter).text))
      (h name List.mem_cons_self) (toList_more (toList_more (toList_head _ name _) _) _)
      (ends_cons _ rfl) (fun _ => rfl) fun _ => rfl
  | dropProcedure name =>
    exact read?_head [.word "DROP", .word "PROCEDURE", .word "IF", .word "EXISTS"]
      (fun name => .drop true (.procedure name)) (h name List.mem_cons_self)
      (toList_head _ name ";") (ends_cons _ rfl) (fun _ => rfl) fun _ => rfl
  | createFunction name counter =>
    exact read?_head [.word "CREATE", .word "FUNCTION"]
      (fun name' => .create .plain (.function name' (createFunction name counter).text))
      (h name List.mem_cons_self)
      (toList_more (toList_more (toList_more (toList_more (toList_head _ name _) _) _) _) _)
      (ends_cons _ rfl) (fun _ => rfl) fun _ => rfl
  | createTriggerFunction name body =>
    exact read?_head [.word "CREATE", .word "OR", .word "REPLACE", .word "FUNCTION"]
      (fun name' =>
        .create .replacing (.function name' (createTriggerFunction name body).text))
      (h name List.mem_cons_self) (toList_more (toList_more (toList_head _ name _) _) _)
      (ends_cons _ rfl) (fun _ => rfl) fun _ => rfl
  | dropFunction name =>
    exact read?_head [.word "DROP", .word "FUNCTION", .word "IF", .word "EXISTS"]
      (fun name => .drop true (.function name)) (h name List.mem_cons_self)
      (toList_head _ name "();") (ends_cons _ rfl) (fun _ => rfl) fun _ => rfl
  | dropTrigger name =>
    exact read?_head [.word "DROP", .word "TRIGGER", .word "IF", .word "EXISTS"]
      (fun name => .drop true (.trigger name none)) (h name List.mem_cons_self)
      (toList_head _ name ";") (ends_cons _ rfl) (fun _ => rfl) fun _ => rfl
  | createTrigger name kind t body =>
    have htext : (createTrigger name kind t body).text = "CREATE TRIGGER " ++ name ++ " AFTER " ++
      kind.name ++ " ON " ++ t ++ "\nFOR EACH ROW\nBEGIN\n" ++ body.text .mysql ++ "\nEND;" := rfl
    have hlist := congrArg String.toList htext
    simp only [String.toList_append, List.append_assoc] at hlist
    have htokens := tokens_trigger (h name List.mem_cons_self)
      (h t (List.mem_cons_of_mem _ List.mem_cons_self)) hlist (ends_cons _ rfl)
    rw [Command.read?, htokens]
    show (do return Command.create .plain (.trigger (← (nameToken name).name?)
      (← (nameToken t).name?) (createTrigger name kind t body).text)) = _
    rw [name?_nameToken, name?_nameToken]
    rfl
  | createCallingTrigger name kind t f =>
    have htext : (createCallingTrigger name kind t f).text = "CREATE TRIGGER " ++ name ++
      " AFTER " ++ kind.name ++ " ON " ++ t ++ "\nFOR EACH ROW EXECUTE PROCEDURE " ++ f ++ "();" :=
      rfl
    have hlist := congrArg String.toList htext
    simp only [String.toList_append, List.append_assoc] at hlist
    have htokens := tokens_trigger (h name List.mem_cons_self)
      (h t (List.mem_cons_of_mem _ List.mem_cons_self)) hlist (ends_cons _ rfl)
    have hcall (rest : List Char) : tokens 6 ("\nFOR EACH ROW EXECUTE PROCEDURE ".toList ++ rest) =
        .word "FOR" :: .word "EACH" :: .word "ROW" :: .word "EXECUTE" :: .word "PROCEDURE" ::
          tokens 1 (' ' :: rest) := rfl
    have hf : tokens 1 (' ' :: (f.toList ++ "();".toList)) = [nameToken f] :=
      tokens_name (h f (by simp [names])) (ends_cons _ rfl) 0
    rw [Command.read?, htokens, hcall, hf]
    let text := (createCallingTrigger name kind t f).text
    show (do return Command.create .plain (.callingTrigger (← (nameToken name).name?)
      (← (nameToken t).name?) (← (nameToken f).name?) text)) = _
    rw [name?_nameToken, name?_nameToken, name?_nameToken]
    rfl
  | dropTriggerOn name t =>
    have hon (rest : List Char) : tokens 8 (" ON ".toList ++ rest) =
        .word "ON" :: tokens 7 (' ' :: rest) := rfl
    have ht : tokens 7 (' ' :: (t.toList ++ ";".toList)) = nameToken t :: tokens 6 ";".toList :=
      tokens_name (h t (List.mem_cons_of_mem _ List.mem_cons_self)) (ends_cons _ rfl) 6
    have htokens := tokens_head [.word "DROP", .word "TRIGGER", .word "IF", .word "EXISTS"]
      (h name List.mem_cons_self)
      (toList_more (toList_more (toList_head "DROP TRIGGER IF EXISTS " name " ON ") t) ";")
      (ends_cons _ rfl) fun _ => rfl
    rw [List.append_assoc, hon, ht] at htokens
    refine (congrArg (Command.ofTokens? _) htokens).trans ?_
    show (do return Command.drop true (.trigger (← (nameToken name).name?)
      (some (← (nameToken t).name?)))) = _
    rw [name?_nameToken, name?_nameToken]
    rfl

end Statement

end SearchSync
