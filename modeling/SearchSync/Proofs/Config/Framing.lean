import Mathlib.Data.List.Chain
import SearchSync.Proofs.Config.SetupScript
import SearchSync.Proofs.Text.Pieces
import SearchSync.Proofs.Trigger.Running
import SearchSync.Trigger.Basic

/-!
# Scripts as a client cuts them

A MySQL script sets the delimiter, ends each statement with a line of its own and sets the delimiter
back. Cut at these lines, it gives the statements back, provided that no name has the delimiter in
it: the literals around the names are checked one by one.
-/

namespace SearchSync

namespace Text

def inner (text : String) : String :=
  String.ofList
    (((text.toList.dropWhile (· ≠ '\n')).drop 1).dropLast.rdropWhile (· ≠ '\n'))

theorem inner_eq {text body : String} {first last : List Char} (hfirst : '\n' ∉ first)
    (hlast : '\n' ∉ last) (hbody : body = "" ∨ ∃ more, body = more ++ "\n")
    (htext : text.toList = first ++ '\n' :: (body.toList ++ last ++ ['\n'])) :
    inner text = body := by
  have hline : last.rdropWhile (· ≠ '\n') = [] := by
    rw [List.rdropWhile_eq_nil_iff]
    intro c hc
    exact decide_eq_true fun heq => hlast (heq ▸ hc)
  have hcut : (body.toList ++ last).rdropWhile (· ≠ '\n') = body.toList := by
    rcases hbody with rfl | ⟨more, rfl⟩
    · exact hline
    · rw [String.toList_append]
      change (more.toList ++ ['\n'] ++ last).rdropWhile _ = more.toList ++ ['\n']
      rw [List.append_assoc, List.singleton_append, rdropWhile_append_cons (by decide), hline]
  rw [inner, htext, dropWhile_ne hfirst, List.drop_one, List.tail_cons, List.dropLast_concat, hcut,
    String.ofList_toList]

theorem join_lines {texts : List String} (h : ∀ text ∈ texts, ∃ more, text = more ++ "\n") :
    String.join texts = "" ∨ ∃ more, String.join texts = more ++ "\n" := by
  induction texts with
  | nil => exact Or.inl rfl
  | cons text texts ih =>
    obtain ⟨⟨line, rfl⟩, htexts⟩ := List.forall_mem_cons.mp h
    right
    rw [String.join_cons]
    rcases ih htexts with hnone | ⟨more, hmore⟩
    · exact ⟨line, by rw [hnone, String.append_empty]⟩
    · exact ⟨line ++ "\n" ++ more, by rw [hmore, ← String.append_assoc]⟩

theorem join_terminated (sep : String) (parts : List String) :
    String.join (parts.map fun p => p ++ sep) = sep.intercalate (parts ++ [""]) := by
  induction parts with
  | nil => rfl
  | cons p parts ih =>
    have hne : parts ++ [""] ≠ [] := List.append_ne_nil_of_right_ne_nil _ (List.cons_ne_nil _ _)
    rw [List.map_cons, String.join_cons, ih, List.cons_append,
      String.intercalate_cons_of_ne_nil hne]

end Text

namespace Script

def Clear (text : String) : Prop := ¬['/', '/'] <:+: text.toList

theorem clear_iff_isChain {text : String} :
    Clear text ↔ text.toList.IsChain fun a b => ¬(a = '/' ∧ b = '/') := by
  rw [List.isChain_iff_forall_rel_of_append_cons_cons]
  constructor
  · rintro h a b before after htext ⟨rfl, rfl⟩
    apply h
    rw [htext]
    exact ⟨before, after, List.append_assoc _ _ _⟩
  · rintro h ⟨before, after, htext⟩
    rw [List.append_assoc] at htext
    exact h htext.symm ⟨rfl, rfl⟩

instance (text : String) : Decidable (Clear text) := decidable_of_iff _ clear_iff_isChain.symm

theorem not_line_suffix {c : Char} (h : c ≠ '\n') (text : List Char) :
    ¬['\n', '/', '/', '\n'] <:+ text ++ [c] := by
  rintro ⟨before, hline⟩
  have hsame : before ++ ['\n', '/', '/'] ++ ['\n'] = text ++ [c] := by
    rw [← hline, List.append_assoc]
    rfl
  obtain ⟨-, hlast⟩ := List.append_inj' hsame rfl
  exact h (List.singleton_inj.mp hlast).symm

/-- The line that ends a statement begins nowhere in a statement without a delimiter, not even
where the line itself follows. -/
theorem Clear.uncut {text : String} (h : Clear text) :
    Text.Uncut "\n//\n".toList text.toList := by
  intro hin
  have hbehind : text.toList ++ "\n//\n".toList.dropLast =
      text.toList ++ ['\n'] ++ ['/'] ++ ['/'] := by
    rw [List.append_assoc, List.append_assoc]
    rfl
  have hslashes : ['/', '/'] <:+: ['\n', '/', '/'] := (List.suffix_cons _ _).isInfix
  change ['\n', '/', '/', '\n'] <:+: _ at hin
  rw [hbehind, List.infix_concat_iff, List.infix_concat_iff, List.infix_concat_iff] at hin
  rcases hin with hend | hend | hend | hinside
  · exact not_line_suffix (by decide) _ hend
  · exact not_line_suffix (by decide) _ hend
  · have hmost : ['\n', '/', '/'] <:+ text.toList := List.suffix_append_self_iff.mp hend
    exact h (hslashes.trans hmost.isInfix)
  · have hmost : ['\n', '/', '/'] <:+: ['\n', '/', '/', '\n'] := (List.prefix_append _ _).isInfix
    exact h (hslashes.trans (hmost.trans hinside))

def Trimmed (text core : String) : Prop :=
  ∃ semicolons blanks : List Char, text.toList = core.toList ++ semicolons ++ blanks ∧
    (∀ c ∈ blanks, Text.isBlank c) ∧ (∀ c ∈ semicolons, c = ';') ∧
    (∀ c ∈ (core.toList ++ semicolons).getLast?, ¬Text.isBlank c) ∧
    ∀ c ∈ core.toList.getLast?, c ≠ ';'

section Trimming

variable {p : Char → Bool} {cs after : List Char}

theorem last_of_rdropWhile : ∀ c ∈ (cs.rdropWhile p).getLast?, ¬p c := by
  intro c hc
  obtain ⟨hne, rfl⟩ := List.mem_getLast?_eq_getLast hc
  exact List.rdropWhile_last_not p cs hne

theorem rdropWhile_of_last (hlast : ∀ c ∈ cs.getLast?, ¬p c) (hafter : ∀ c ∈ after, p c) :
    (cs ++ after).rdropWhile p = cs := by
  obtain rfl | ⟨before, c, rfl⟩ := cs.eq_nil_or_concat'
  · exact List.rdropWhile_eq_nil_iff.mpr hafter
  · have hc : p c = false := by
      rw [← Bool.not_eq_true]
      exact hlast c (by simp)
    rw [List.append_assoc, List.singleton_append, rdropWhile_append_cons hc,
      List.rdropWhile_eq_nil_iff.mpr hafter]

end Trimming

theorem trimStatement_eq_iff {text core : String} :
    trimStatement text = core ↔ Trimmed text core := by
  constructor
  · intro hcore
    subst hcore
    have hblanks : Text.trimEnd text.toList ++ text.toList.rtakeWhile Text.isBlank = text.toList :=
      List.rdropWhile_append_rtakeWhile
    have hsemicolons : (trimStatement text).toList ++
        (Text.trimEnd text.toList).rtakeWhile (· == ';') = Text.trimEnd text.toList := by
      rw [trimStatement, String.toList_ofList]
      exact List.rdropWhile_append_rtakeWhile
    refine ⟨(Text.trimEnd text.toList).rtakeWhile (· == ';'), text.toList.rtakeWhile Text.isBlank,
      ?_, fun c hc => List.mem_rtakeWhile_imp hc, ?_, ?_, ?_⟩
    · rw [hsemicolons, hblanks]
    · intro c hc
      exact beq_iff_eq.mp (List.mem_rtakeWhile_imp (p := (· == ';')) hc)
    · rw [hsemicolons]
      exact last_of_rdropWhile
    · intro c hc heq
      rw [trimStatement, String.toList_ofList] at hc
      exact last_of_rdropWhile c hc (beq_iff_eq.mpr heq)
  · intro h
    obtain ⟨semicolons, blanks, htext, hblanks, hsemicolons, hlast, hcore⟩ := h
    have hend : Text.trimEnd text.toList = core.toList ++ semicolons := by
      rw [htext]
      exact rdropWhile_of_last hlast hblanks
    have hrest : Text.dropEndWhile (· == ';') (core.toList ++ semicolons) = core.toList :=
      rdropWhile_of_last (fun c hc => by simpa using hcore c hc)
        fun c hc => beq_iff_eq.mpr (hsemicolons c hc)
    rw [trimStatement, hend, hrest, String.ofList_toList]

theorem Clear.trimStatement {text : String} (h : Clear text) : Clear (trimStatement text) := by
  have htrimmed : Trimmed text (Script.trimStatement text) := trimStatement_eq_iff.mp rfl
  obtain ⟨semicolons, blanks, htext, -⟩ := htrimmed
  have hprefix : (Script.trimStatement text).toList <+: text.toList :=
    ⟨semicolons ++ blanks, by rw [htext, List.append_assoc]⟩
  intro hin
  exact h (hin.trans hprefix.isInfix)

/-- A script has texts between a first line that sets the delimiter and a last line that sets it
back, each up to a line with the delimiter, and nothing behind the last of them. -/
structure Frames (script : String) (texts : List String) : Prop where
  lines : script = "DELIMITER //\n" ++ Text.inner script ++ "DELIMITER ;\n"
  pieces : Text.pieces "\n//\n" (Text.inner script) = texts ++ [""]

theorem inner_render (statements : List String) : Text.inner (render .mysql statements) =
    String.join (statements.map fun s => trimStatement s ++ "\n//\n") := by
  have hset : '\n' ∉ "DELIMITER //".toList := by decide
  have hreset : '\n' ∉ "DELIMITER ;".toList := by decide
  refine Text.inner_eq hset hreset (Text.join_lines ?_) ?_
  · intro text htext
    obtain ⟨s, -, rfl⟩ := List.mem_map.mp htext
    have hline : "\n//\n" = "\n//" ++ "\n" := by decide
    exact ⟨trimStatement s ++ "\n//", by rw [hline, String.append_assoc]⟩
  · have hfirst : "DELIMITER //\n".toList = "DELIMITER //".toList ++ ['\n'] := by decide
    have hlast : "DELIMITER ;\n".toList = "DELIMITER ;".toList ++ ['\n'] := by decide
    rw [render, String.toList_append, String.toList_append, hfirst, hlast]
    simp only [List.append_assoc, List.cons_append, List.nil_append]

theorem frames_render {statements : List String} (h : ∀ s ∈ statements, Clear s) :
    Frames (render .mysql statements) (statements.map trimStatement) where
  lines := by
    rw [inner_render]
    rfl
  pieces := by
    have hjoin := Text.join_terminated "\n//\n" (statements.map trimStatement)
    rw [List.map_map] at hjoin
    rw [inner_render]
    refine (congrArg (Text.pieces "\n//\n") hjoin).trans ?_
    refine Text.pieces_intercalate (by decide) ?_ ?_
    · exact List.append_ne_nil_of_right_ne_nil _ (List.cons_ne_nil _ _)
    · intro p hp
      rcases List.mem_append.mp hp with hp | hp
      · obtain ⟨s, hs, rfl⟩ := List.mem_map.mp hp
        exact (h s hs).trimStatement.uncut
      · obtain rfl := List.mem_singleton.mp hp
        exact Clear.uncut (by decide)

section Append

variable {s n t : String}

/-- A text that makes no delimiter with the texts that it stands between. -/
def Tight (text : String) : Prop :=
  Clear text ∧ text.toList.head?.any (· ≠ '/') ∧ text.toList.getLast?.any (· ≠ '/')

instance (text : String) : Decidable (Tight text) := inferInstanceAs (Decidable (_ ∧ _ ∧ _))

theorem Tight.start (h : Tight s) (t : String) : (s ++ t).toList.head?.any (· ≠ '/') := by
  obtain ⟨-, hstart, -⟩ := h
  rw [String.toList_append, List.head?_append]
  cases hhead : s.toList.head? with
  | none => simp [hhead] at hstart
  | some c => rwa [hhead] at hstart

theorem Tight.stop (h : Tight t) (s : String) : (s ++ t).toList.getLast?.any (· ≠ '/') := by
  obtain ⟨-, -, hstop⟩ := h
  rw [String.toList_append, List.getLast?_append]
  cases hlast : t.toList.getLast? with
  | none => simp [hlast] at hstop
  | some c => rwa [hlast] at hstop

theorem clear_append (hs : Clear s) (ht : Clear t)
    (h : s.toList.getLast?.any (· ≠ '/') ∨ t.toList.head?.any (· ≠ '/')) : Clear (s ++ t) := by
  rw [clear_iff_isChain, String.toList_append]
  refine (clear_iff_isChain.mp hs).append (clear_iff_isChain.mp ht) ?_
  rintro a ha b hb ⟨rfl, rfl⟩
  rcases h with hstop | hstart
  · rw [ha] at hstop
    exact absurd hstop (by decide)
  · rw [hb] at hstart
    exact absurd hstart (by decide)

theorem Clear.append_tight (hs : Clear s) (ht : Tight t) : Clear (s ++ t) :=
  clear_append hs ht.1 (Or.inr ht.2.1)

theorem Clear.apart (hs : Clear s) (hn : Tight n) (ht : Clear t) : Clear (s ++ n ++ t) :=
  clear_append (hs.append_tight hn) ht (Or.inl (hn.stop s))

theorem Tight.around (hs : Tight s) (hn : Clear n) (ht : Tight t := by decide +kernel) :
    Tight (s ++ n ++ t) := by
  have hbegin : Clear (s ++ n) := clear_append hs.1 hn (Or.inl hs.2.2)
  refine ⟨hbegin.append_tight ht, ?_, ht.stop _⟩
  rw [String.append_assoc]
  exact hs.start _

theorem Tight.append (hs : Tight s) (ht : Tight t := by decide +kernel) : Tight (s ++ t) := by
  have haround := hs.around (n := "") (by decide) ht
  rwa [String.append_empty] at haround

theorem clear_intercalate (hs : Tight s) {parts : List String} (h : ∀ p ∈ parts, Clear p) :
    Clear (s.intercalate parts) := by
  induction parts with
  | nil => exact (by decide : Clear "")
  | cons p parts ih =>
    obtain ⟨hp, hparts⟩ := List.forall_mem_cons.mp h
    cases parts with
    | nil => rwa [String.intercalate_singleton]
    | cons q parts =>
      rw [String.intercalate_cons_cons]
      exact hp.apart hs (ih hparts)

end Append

end Script

open Script (Clear Tight)

def TriggerBody.names : TriggerBody → List String
  | .record procedure entry =>
    procedure :: entry.log :: entry.kindColumn :: entry.columns.flatMap fun c => [c.1, c.2]
  | .cleanUp counter => [counter]

def Statement.mentions : Statement → List String
  | .createCounter _ table | .dropCounter table => [table]
  | .createProcedure name counter | .createFunction name counter => [name, counter]
  | .dropProcedure name | .dropFunction name | .dropTrigger name => [name]
  | .createTriggerFunction name body => name :: body.names
  | .createTrigger name _ table body => name :: table :: body.names
  | .createCallingTrigger name _ table function => [name, table, function]
  | .dropTriggerOn name table => [name, table]

theorem clear_kindName (kind : ChangeKind) : Clear kind.name := by
  cases kind <;> decide

theorem LogEntry.tight_insertText {e : LogEntry} {id : String} (hlog : Clear e.log)
    (hkind : Clear e.kindColumn) (hcolumns : ∀ c ∈ e.columns, Clear c.1 ∧ Clear c.2)
    (hid : Clear id) : Tight (e.insertText id) := by
  have hseparator : Tight ", " := by decide
  have hlist : Clear e.columnList := by
    refine Script.clear_intercalate hseparator fun p hp => ?_
    obtain ⟨c, hc, rfl⟩ := List.mem_map.mp hp
    exact (hcolumns c hc).1
  have hvalues : Clear e.valueList := by
    refine Script.clear_intercalate hseparator fun p hp => ?_
    obtain ⟨c, hc, rfl⟩ := List.mem_map.mp hp
    have hrow : Clear e.rowName := by
      rw [rowName]
      cases e.kind <;> decide
    exact hrow.apart (by decide) (hcolumns c hc).2
  have hcode : Clear (Decimal.natText e.kind.code) := by
    cases e.kind <;> decide +kernel
  have hhead : Tight "    INSERT INTO " := by decide
  have hopen : Tight "(id, " := by decide
  have hclose : Tight ")\n" := by decide
  have hopenValues : Tight "        VALUES(" := by decide
  have hend : Tight ");" := by decide
  exact (((((((hhead.around hlog hopen).around hkind hseparator).around hlist hclose).append
    hopenValues).around hid hseparator).around hcode hseparator).around hvalues hend)

theorem TriggerBody.tight_text {body : TriggerBody} (h : ∀ n ∈ body.names, Clear n)
    (d : Dialect) : Tight (body.text d) := by
  cases body with
  | cleanUp counter =>
    have hhead : Tight "    DELETE FROM " := by decide
    exact hhead.around (h counter (List.mem_singleton_self _))
  | record procedure entry =>
    simp only [names, List.forall_mem_cons, List.forall_mem_flatMap] at h
    obtain ⟨hprocedure, hlog, hkind, hcolumns⟩ := h
    have hpairs : ∀ c ∈ entry.columns, Clear c.1 ∧ Clear c.2 := fun c hc =>
      ⟨(hcolumns c hc).1, (hcolumns c hc).2.1⟩
    cases d with
    | mysql =>
      have hhead : Tight "    CALL " := by decide
      have hid : Clear "@unique_id" := by decide
      exact (hhead.around hprocedure).append (LogEntry.tight_insertText hlog hkind hpairs hid)
    | postgresql =>
      have hid : Clear (procedure ++ "()") := hprocedure.append_tight (by decide)
      exact LogEntry.tight_insertText hlog hkind hpairs hid

theorem Statement.tight_text {st : Statement} (h : ∀ n ∈ st.mentions, Clear n) :
    Tight st.text := by
  have htrigger : Tight "CREATE TRIGGER " := by decide
  have hafter : Tight " AFTER " := by decide
  have hon : Tight " ON " := by decide
  cases st <;> simp only [mentions, List.forall_mem_cons] at h
  case createCounter d table =>
    have hhead : Tight "CREATE TABLE IF NOT EXISTS " := by decide
    have hopen : Tight " (\n    id " := by decide
    cases d <;> exact (hhead.around h.1 hopen).append.append
  case dropCounter table =>
    have hhead : Tight "DROP TABLE IF EXISTS " := by decide
    exact hhead.around h.1
  case createProcedure name counter =>
    have hhead : Tight "CREATE PROCEDURE " := by decide
    exact (hhead.around h.1).around h.2.1
  case dropProcedure name =>
    have hhead : Tight "DROP PROCEDURE IF EXISTS " := by decide
    exact hhead.around h.1
  case createFunction name counter =>
    have hhead : Tight "CREATE FUNCTION " := by decide
    exact ((hhead.around h.1).append.around h.2.1).append
  case createTriggerFunction name body =>
    have hhead : Tight "CREATE OR REPLACE FUNCTION " := by decide
    have hbody := TriggerBody.tight_text h.2 .postgresql
    exact ((hhead.around h.1).append hbody).append
  case dropFunction name =>
    have hhead : Tight "DROP FUNCTION IF EXISTS " := by decide
    exact hhead.around h.1
  case createTrigger name kind table body =>
    have hkind := (htrigger.around h.1 hafter).around (clear_kindName kind) hon
    have hbody := TriggerBody.tight_text h.2.2 .mysql
    exact ((hkind.around h.2.1).append hbody).append
  case createCallingTrigger name kind table function =>
    have hkind := (htrigger.around h.1 hafter).around (clear_kindName kind) hon
    exact (hkind.around h.2.1).around h.2.2.1
  case dropTrigger name =>
    have hhead : Tight "DROP TRIGGER IF EXISTS " := by decide
    exact hhead.around h.1
  case dropTriggerOn name table =>
    have hhead : Tight "DROP TRIGGER IF EXISTS " := by decide
    exact (hhead.around h.1).around h.2.1

end SearchSync

namespace SearchSync

open Script (Clear Frames Trimmed)

section Names

variable {name : String}

theorem clear_triggerName (h : Clear name) (kind : ChangeKind) : Clear (triggerName name kind) :=
  h.apart (by decide) (clear_kindName kind)

theorem clear_cleanupName (h : Clear name) : Clear (cleanupName name) := h.append_tight (by decide)

theorem clear_functionName (h : Clear name) : Clear (TriggerSource.functionName name) :=
  h.append_tight (by decide)

end Names

def Hook.mentions (h : Hook) : List String := h.name :: h.table :: h.body.names

def EventModel.names (m : EventModel) : List String :=
  m.table :: m.log :: m.kindColumn :: m.mappings.flatMap fun i => i.logColumns ++ i.tableColumns

namespace TriggerSource

variable {s : TriggerSource} {h : Hook} {st : Statement}

theorem mentions_setup (hst : st ∈ s.setup) :
    ∀ n ∈ st.mentions, n = s.counter ∨ n = s.procedure := by
  cases hdialect : s.dialect <;>
    simp only [setup, hdialect, List.mem_cons, List.not_mem_nil, or_false] at hst <;>
    rcases hst with rfl | rfl | rfl <;> simp [Statement.mentions]

theorem mentions_recreateCounter (hst : st ∈ s.recreateCounter) :
    ∀ n ∈ st.mentions, n = s.counter := by
  simp only [recreateCounter, List.mem_cons, List.not_mem_nil, or_false] at hst
  rcases hst with rfl | rfl <;> simp [Statement.mentions]

theorem mentions_createHook (hst : st ∈ s.createHook h) :
    ∀ n ∈ st.mentions, n ∈ functionName h.name :: h.mentions := by
  cases hdialect : s.dialect with
  | mysql =>
    rw [createHook, create, hdialect, List.mem_singleton] at hst
    subst hst
    intro n hn
    exact List.mem_cons_of_mem _ hn
  | postgresql =>
    rw [createHook, create, hdialect, List.mem_cons, List.mem_singleton] at hst
    rcases hst with rfl | rfl
    · intro n hn
      rcases List.mem_cons.mp hn with rfl | hbody
      · exact List.mem_cons_self
      · exact List.mem_cons_of_mem _ (List.mem_cons_of_mem _ (List.mem_cons_of_mem _ hbody))
    · simp [Statement.mentions, Hook.mentions]

theorem mentions_dropHook (hst : st ∈ s.dropHook h) :
    ∀ n ∈ st.mentions, n ∈ functionName h.name :: h.mentions := by
  cases hdialect : s.dialect with
  | mysql =>
    rw [dropHook, drop, hdialect, List.mem_singleton] at hst
    subst hst
    simp [Statement.mentions, Hook.mentions]
  | postgresql =>
    rw [dropHook, drop, hdialect, List.mem_cons, List.mem_singleton] at hst
    rcases hst with rfl | rfl <;> simp [Statement.mentions, Hook.mentions]

theorem eq_of_setupStatements {models : List EventModel} {printed : List Statement}
    (h : s.setupStatements models = .ok printed) :
    printed = s.setup ++ (s.allHooks models).flatMap s.createHook := by
  by_cases hall : ∀ m ∈ models, m.columnPairs ≠ []
  · rw [setupStatements_ok hall] at h
    exact (Except.ok.inj h).symm
  · obtain ⟨done, m, later, rfl, hdone, hm⟩ := exists_first_uncopied hall
    rw [setupStatements_error hdone hm later] at h
    cases h

section Clear

variable (hcounter : Clear s.counter) (hprocedure : Clear s.procedure)
include hcounter hprocedure

theorem clear_hooks {m : EventModel} (hm : ∀ n ∈ m.names, Clear n) (hh : h ∈ s.hooks m) :
    ∀ n ∈ functionName h.name :: h.mentions, Clear n := by
  simp only [EventModel.names, List.forall_mem_cons, List.forall_mem_flatMap] at hm
  obtain ⟨htable, hlog, hkind, hcolumns⟩ := hm
  have hmentions : ∀ n ∈ h.mentions, Clear n := by
    rcases List.mem_cons.mp hh with rfl | hh
    · simp [Hook.mentions, cleanupHook, TriggerBody.names, clear_cleanupName hlog, hlog, hcounter]
    · obtain ⟨kind, -, rfl⟩ := List.mem_map.mp hh
      simp only [Hook.mentions, changeHook, TriggerBody.names, logEntry, List.forall_mem_cons,
        List.forall_mem_flatMap]
      refine ⟨clear_triggerName htable kind, htable, hprocedure, hlog, hkind, ?_⟩
      intro i hi pair hpair
      obtain ⟨hlogColumn, htableColumn⟩ := List.of_mem_zip hpair
      refine ⟨?_, ?_, List.forall_mem_nil _⟩
      · exact hcolumns i hi _ (List.mem_append_left _ hlogColumn)
      · exact hcolumns i hi _ (List.mem_append_right _ htableColumn)
  have hname : Clear h.name := hmentions _ List.mem_cons_self
  exact List.forall_mem_cons.mpr ⟨clear_functionName hname, hmentions⟩

variable {models : List EventModel} (hmodels : ∀ m ∈ models, ∀ n ∈ m.names, Clear n)
include hmodels

theorem clear_teardownStatements : ∀ st ∈ s.teardownStatements models, Clear st.text := by
  intro st hst
  rw [teardown_eq] at hst
  obtain ⟨h, hh, hst⟩ := List.mem_flatMap.mp hst
  obtain ⟨m, hm, hh⟩ := List.mem_flatMap.mp hh
  have hhook : h ∈ s.hooks m := by
    rw [hooks, List.mem_cons]
    simpa [or_comm] using hh
  refine (Statement.tight_text fun n hn => ?_).1
  exact clear_hooks hcounter hprocedure (hmodels m hm) hhook n (mentions_dropHook hst n hn)

theorem clear_setupStatements {printed : List Statement}
    (hprinted : s.setupStatements models = .ok printed) : ∀ st ∈ printed, Clear st.text := by
  intro st hst
  refine (Statement.tight_text fun n hn => ?_).1
  rw [eq_of_setupStatements hprinted] at hst
  rcases List.mem_append.mp hst with hst | hst
  · rcases mentions_setup hst n hn with rfl | rfl
    · exact hcounter
    · exact hprocedure
  · obtain ⟨h, hh, hst⟩ := List.mem_flatMap.mp hst
    obtain ⟨m, hm, hh⟩ := List.mem_flatMap.mp hh
    exact clear_hooks hcounter hprocedure (hmodels m hm) hh n (mentions_createHook hst n hn)

end Clear

end TriggerSource

theorem Dialect.clear_defaults (d : Dialect) :
    Clear d.defaultCounter ∧ Clear d.defaultProcedure := by
  cases d <;> decide

namespace Config

def names (c : Config) : List String :=
  c.counter.toList ++ c.procedure.toList ++ c.models.flatMap EventModel.names

variable {c : Config}

theorem clear_source (h : ∀ n ∈ c.names, Clear n) :
    Clear c.source.counter ∧ Clear c.source.procedure := by
  obtain ⟨dialect, counter, procedure, models, roots⟩ := c
  simp only [names, List.forall_mem_append] at h
  obtain ⟨⟨hcounter, hprocedure⟩, -⟩ := h
  constructor
  · cases counter with
    | none => exact dialect.clear_defaults.1
    | some name => exact hcounter name (List.mem_singleton_self _)
  · cases procedure with
    | none => exact dialect.clear_defaults.2
    | some name => exact hprocedure name (List.mem_singleton_self _)

theorem clear_statements (h : ∀ n ∈ c.names, Clear n) {sts : List Statement}
    (hsts : c.setupStatements = .ok sts ∨ sts = c.teardownStatements ∨
      sts = c.recreateStatements) : ∀ st ∈ sts, Clear st.text := by
  obtain ⟨hcounter, hprocedure⟩ := clear_source h
  have hmodels : ∀ m ∈ c.models, ∀ n ∈ m.names, Clear n := fun m hm n hn =>
    h n (List.mem_append_right _ (List.mem_flatMap.mpr ⟨m, hm, hn⟩))
  rcases hsts with hsetup | rfl | rfl
  · exact TriggerSource.clear_setupStatements hcounter hprocedure hmodels hsetup
  · exact TriggerSource.clear_teardownStatements hcounter hprocedure hmodels
  · intro st hst
    refine (Statement.tight_text fun n hn => ?_).1
    rw [TriggerSource.mentions_recreateCounter hst n hn]
    exact hcounter

end Config

/-- A MySQL script frames its statements if none of them has the delimiter in it: they are cut out
of it in their order, each without the white space and then the semicolons at its end, and nothing
is left over. So it does for every list of statements that a configuration prints, if no name in
the configuration has the delimiter in it. -/
theorem mysql_script_frames_statements :
    (∀ sts : List String, (∀ st ∈ sts, Clear st) →
      Frames (Script.render .mysql sts) (sts.map Script.trimStatement)) ∧
    (∀ st core, Script.trimStatement st = core ↔ Trimmed st core) ∧
    ∀ c : Config, (∀ n ∈ c.names, Clear n) →
      ((∀ m ∈ c.models, m.Usable) → ∃ sts, c.setupStatements = .ok sts) ∧
      ∀ sts, (c.setupStatements = .ok sts ∨ sts = c.teardownStatements ∨
          sts = c.recreateStatements) →
        Frames (Script.render .mysql (sts.map (·.text)))
          (sts.map fun st => Script.trimStatement st.text) := by
  refine ⟨fun sts h => Script.frames_render h, fun st core => Script.trimStatement_eq_iff, ?_⟩
  intro c hnames
  refine ⟨fun husable => ?_, fun sts hsts => ?_⟩
  · have hcolumns : ∀ m ∈ c.models, m.columnPairs ≠ [] := fun m hm =>
      (husable m hm).columnPairs_ne_nil
    exact ⟨_, TriggerSource.setupStatements_ok hcolumns⟩
  · have hclear : ∀ text ∈ sts.map (·.text), Clear text := by
      intro text htext
      obtain ⟨st, hst, rfl⟩ := List.mem_map.mp htext
      exact Config.clear_statements hnames hsts st hst
    have hframes := Script.frames_render hclear
    rwa [List.map_map] at hframes

/-- Slashes, semicolons and blank lines next to the lines that end statements stay where they are,
and so does a statement without a text. The statements of the configuration are framed as well. -/
theorem mysql_script_frames_statements_visitors :
    Frames (Script.render .mysql ["/;", "", "SELECT 1 / 2;\n\nSELECT 3; ;;\n"])
        ["/", "", "SELECT 1 / 2;\n\nSELECT 3; "] ∧
      (∀ n ∈ (Sample.staffedConfig "visitors").names, Clear n) ∧
      ∃ sts, (Sample.staffedConfig "visitors").setupStatements = .ok sts ∧
        Frames (Script.render .mysql (sts.map (·.text)))
          (sts.map fun st => Script.trimStatement st.text) := by
  have hnames : ∀ n ∈ (Sample.staffedConfig "visitors").names, Clear n := by decide
  have husable : ∀ m ∈ (Sample.staffedConfig "visitors").models, m.Usable := by
    have hprepared := Sample.prepared_staffed (Or.inl (Eq.refl "visitors"))
    intro m hm
    exact EventModel.checked_iff_usable.mp (hprepared.checked m hm)
  obtain ⟨hframes, -, hconfig⟩ := mysql_script_frames_statements
  obtain ⟨hprinted, hscript⟩ := hconfig _ hnames
  obtain ⟨sts, hsts⟩ := hprinted husable
  exact ⟨hframes _ (by decide), hnames, sts, hsts, hscript sts (Or.inl hsts)⟩

end SearchSync
