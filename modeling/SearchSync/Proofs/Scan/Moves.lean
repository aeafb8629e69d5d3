import SearchSync.Proofs.Scan.Journal
import SearchSync.Proofs.Scan.Session

/-!
# Where pages begin

The next page of a source begins at the number of rows it has returned and the distance it was
moved, whatever its pages held and however reading and moving took turns. A move leaves alone what
is buffered: a source is a queue into which pages go at one end and rows come out at the other.
-/
namespace SearchSync.Scan

variable {κ α σ : Type}

def Use.noted : Use κ α σ → Use κ α (σ × List (Request κ α))
  | .add tag count fetchPage => .add tag count (Scan.noted id tag fetchPage)
  | .next => .next
  | .move tag delta => .move tag delta

def Event.shift [DecidableEq κ] (tag : κ) : Event κ α → Int
  | .moved source delta => if source = tag then delta else 0
  | _ => 0

def movedBy [DecidableEq κ] (tag : κ) : List (Event κ α) → Int
  | [] => 0
  | event :: events => event.shift tag + movedBy tag events

def valuesFrom [DecidableEq κ] (tag : κ) (events : List (Event κ α)) : List α :=
  ((rows events).filter fun c => c.source = tag).map (·.value)

def Drifts (tag : κ) (call : Use κ α σ × Event κ α) : Prop :=
  call = (.next, .failed (.counterDrift tag .processed))

section Events

variable [DecidableEq κ] {events : List (Event κ α)}

theorem returnedFrom_cons (tag : κ) (event : Event κ α) (events : List (Event κ α)) :
    returnedFrom tag (event :: events) = returnedFrom tag [event] + returnedFrom tag events := by
  simp only [returnedFrom, rows, ← List.singleton_append (l := events), List.filterMap_append,
    List.countP_append]

theorem movedBy_cons (tag : κ) (event : Event κ α) (events : List (Event κ α)) :
    movedBy tag (event :: events) = movedBy tag [event] + movedBy tag events := by
  simp [movedBy]

theorem valuesFrom_cons (tag : κ) (event : Event κ α) (events : List (Event κ α)) :
    valuesFrom tag (event :: events) = valuesFrom tag [event] ++ valuesFrom tag events := by
  simp only [valuesFrom, rows, ← List.singleton_append (l := events), List.filterMap_append,
    List.filter_append, List.map_append]

theorem silent_returned {tag : κ} {event : Event κ α} (h : event.row? = none) :
    returnedFrom tag [event] = 0 := by
  simp [returnedFrom, rows, h]

theorem silent_values {tag : κ} {event : Event κ α} (h : event.row? = none) :
    valuesFrom tag [event] = [] := by
  simp [valuesFrom, rows, h]

end Events

section Lookup

variable [DecidableEq κ] {sources before after : List (Source κ α σ)} {t u : Source κ α σ}
  {tag : κ}

def position (tag : κ) (sources : List (Source κ α σ)) : Int :=
  match sources.find? fun t => t.tag = tag with
  | some t => t.processed.toNat
  | none => 0

def buffered (tag : κ) (sources : List (Source κ α σ)) : List α :=
  match sources.find? fun t => t.tag = tag with
  | some t => t.buffer
  | none => []

omit [DecidableEq κ] in
theorem ne_of_nodup (hdistinct : ((before ++ t :: after).map (·.tag)).Nodup)
    (hu : u ∈ before ++ after) : u.tag ≠ t.tag := by
  have hperm : ((t :: (before ++ after)).map (·.tag)).Nodup :=
    (List.perm_middle.map Source.tag).nodup_iff.mp hdistinct
  rw [List.map_cons, List.nodup_cons] at hperm
  intro heq
  exact hperm.1 (List.mem_map.mpr ⟨u, hu, heq⟩)

theorem find?_middle (hdistinct : ((before ++ t :: after).map (·.tag)).Nodup) (tag : κ) :
    ((before ++ t :: after).find? fun u => u.tag = tag) =
      if t.tag = tag then some t else (before ++ after).find? fun u => u.tag = tag := by
  by_cases htag : t.tag = tag
  · have hbefore : (before.find? fun u => u.tag = tag) = none := by
      rw [List.find?_eq_none]
      intro u hu heq
      apply ne_of_nodup hdistinct (List.mem_append_left after hu)
      rw [htag]
      exact of_decide_eq_true heq
    simp [List.find?_append, hbefore, htag]
  · simp [List.find?_append, htag]

theorem position_of_mem (hdistinct : (sources.map (·.tag)).Nodup) (ht : t ∈ sources) :
    position t.tag sources = t.processed.toNat := by
  obtain ⟨before, after, rfl⟩ := List.append_of_mem ht
  rw [position, find?_middle hdistinct, if_pos rfl]

theorem buffered_of_mem (hdistinct : (sources.map (·.tag)).Nodup) (ht : t ∈ sources) :
    buffered t.tag sources = t.buffer := by
  obtain ⟨before, after, rfl⟩ := List.append_of_mem ht
  rw [buffered, find?_middle hdistinct, if_pos rfl]

omit [DecidableEq κ] in
theorem tags_replace (h : u.tag = t.tag) :
    (before ++ u :: after).map (·.tag) = (before ++ t :: after).map (·.tag) := by
  simp only [List.map_append, List.map_cons, h]

theorem map_replace (hdistinct : ((before ++ t :: after).map (·.tag)).Nodup) :
    (before ++ t :: after).map (fun x => if x.tag = t.tag then u else x) =
      before ++ u :: after := by
  have hkept {others : List (Source κ α σ)} (hothers : ∀ x ∈ others, x.tag ≠ t.tag) :
      others.map (fun x => if x.tag = t.tag then u else x) = others := by
    conv_rhs => rw [← List.map_id others]
    exact List.map_congr_left fun x hx => if_neg (hothers x hx)
  rw [List.map_append, List.map_cons, if_pos rfl,
    hkept fun x hx => ne_of_nodup hdistinct (List.mem_append_left after hx),
    hkept fun x hx => ne_of_nodup hdistinct (List.mem_append_right before hx)]

theorem position_replace (hdistinct : ((before ++ t :: after).map (·.tag)).Nodup)
    (hsame : u.tag = t.tag) (tag : κ) :
    position tag (before ++ u :: after) = position tag (before ++ t :: after) +
      if t.tag = tag then (u.processed.toNat : Int) - t.processed.toNat else 0 := by
  have hdistinct' : ((before ++ u :: after).map (·.tag)).Nodup := by rwa [tags_replace hsame]
  rw [position, position, find?_middle hdistinct, find?_middle hdistinct', hsame]
  by_cases htag : t.tag = tag
  · simp only [if_pos htag]
    omega
  · simp only [if_neg htag]
    omega

theorem buffered_replace (hdistinct : ((before ++ t :: after).map (·.tag)).Nodup)
    (hsame : u.tag = t.tag) (tag : κ) :
    buffered tag (before ++ u :: after) =
      if t.tag = tag then u.buffer else buffered tag (before ++ t :: after) := by
  have hdistinct' : ((before ++ u :: after).map (·.tag)).Nodup := by rwa [tags_replace hsame]
  rw [buffered, buffered, find?_middle hdistinct, find?_middle hdistinct', hsame]
  by_cases htag : t.tag = tag
  · simp only [if_pos htag]
  · simp only [if_neg htag]

theorem find?_supplied (requests : List (Request κ α)) (tag : κ) :
    ((sources.map (Source.supplied requests)).find? fun t => t.tag = tag) =
      (sources.find? fun t => t.tag = tag).map (Source.supplied requests) :=
  List.find?_map

theorem position_supplied (requests : List (Request κ α)) (tag : κ) :
    position tag (sources.map (Source.supplied requests)) = position tag sources := by
  rw [position, position, find?_supplied]
  cases sources.find? fun t => t.tag = tag <;> rfl

theorem buffered_supplied {limit : Nat} {requests : List (Request κ α)}
    {stop : Option (ScanError κ)} {sources' : List (Source κ α σ)}
    (h : Refilling limit sources requests stop sources') (tag : κ) :
    buffered tag (sources.map (Source.supplied requests)) =
      buffered tag sources ++ fetchedFrom tag requests := by
  rw [buffered, buffered, find?_supplied]
  cases hfound : sources.find? fun t => t.tag = tag with
  | some t =>
    have htag : t.tag = tag := by simpa using List.find?_some hfound
    simp only [Option.map_some, Source.supplied, htag]
  | none =>
    have hnew : tag ∉ sources.map (·.tag) := by simpa using hfound
    rw [h.fetched_elsewhere hnew]
    rfl

theorem find?_concat (hdistinct : ((sources ++ [t]).map (·.tag)).Nodup) (tag : κ) :
    (t.tag = tag ∧ ((sources ++ [t]).find? fun u => u.tag = tag) = some t ∧
        (sources.find? fun u => u.tag = tag) = none) ∨
      ((sources ++ [t]).find? fun u => u.tag = tag) = sources.find? fun u => u.tag = tag := by
  rw [find?_middle hdistinct, List.append_nil]
  by_cases htag : t.tag = tag
  · refine Or.inl ⟨htag, if_pos htag, ?_⟩
    rw [List.map_append, List.nodup_append] at hdistinct
    rw [List.find?_eq_none]
    intro u hu heq
    apply hdistinct.2.2 u.tag (List.mem_map_of_mem hu) t.tag List.mem_cons_self
    rw [htag]
    exact of_decide_eq_true heq
  · exact Or.inr (if_neg htag)

theorem position_added (hdistinct : ((sources ++ [t]).map (·.tag)).Nodup) (hstart : t.processed = 0)
    (tag : κ) : position tag (sources ++ [t]) = position tag sources := by
  rw [position, position]
  rcases find?_concat hdistinct tag with ⟨-, hnow, hbefore⟩ | hsame
  · rw [hnow, hbefore]
    simp only [hstart]
    rfl
  · rw [hsame]

theorem buffered_added (hdistinct : ((sources ++ [t]).map (·.tag)).Nodup) (hstart : t.buffer = [])
    (tag : κ) : buffered tag (sources ++ [t]) = buffered tag sources := by
  rw [buffered, buffered]
  rcases find?_concat hdistinct tag with ⟨-, hnow, hbefore⟩ | hsame
  · rw [hnow, hbefore]
    exact hstart
  · rw [hsame]

end Lookup

section Turn

variable {comparator : Comparator κ α} {sources sources' : List (Source κ α σ)}
  {r : Except (ScanError κ) Bool} {current : Option (Candidate κ α)} [DecidableEq κ]

theorem Turn.position_eq (h : Turn comparator sources r sources' current)
    (hdistinct : (sources.map (·.tag)).Nodup) (tag : κ) :
    position tag sources' =
      position tag sources + current.toList.countP fun c => c.source = tag := by
  rcases h.cases_source with ⟨rfl, rfl⟩ | ⟨before, t, after, u, rfl, rfl, hsame, hend⟩
  · simp
  · rw [position_replace hdistinct (congrArg Prod.fst hsame)]
    rcases hend with ⟨v, rfl, -, hp⟩ | ⟨-, rfl, hp⟩
    · have hone : (u.processed.toNat : Int) - t.processed.toNat = 1 := by omega
      by_cases htag : t.tag = tag
      · simp [htag, hone]
      · simp [htag]
    · simp [hp]

theorem Turn.buffered_eq (h : Turn comparator sources r sources' current)
    (hdistinct : (sources.map (·.tag)).Nodup) {tag : κ}
    (hcounted : r ≠ .error (.counterDrift tag .processed)) :
    (current.toList.filter fun c => c.source = tag).map (·.value) ++ buffered tag sources' =
      buffered tag sources := by
  rcases h.cases_source with ⟨rfl, rfl⟩ | ⟨before, t, after, u, rfl, rfl, hsame, hend⟩
  · rfl
  · rw [buffered_replace hdistinct (congrArg Prod.fst hsame)]
    by_cases htag : t.tag = tag
    · subst htag
      have ht : buffered t.tag (before ++ t :: after) = t.buffer :=
        buffered_of_mem hdistinct (List.mem_append_right before List.mem_cons_self)
      rw [if_pos rfl, ht]
      rcases hend with ⟨v, rfl, hbuffer, -⟩ | ⟨hdrift, -⟩
      · simp [hbuffer]
      · exact absurd hdrift hcounted
    · rw [if_neg htag]
      rcases hend with ⟨v, rfl, -⟩ | ⟨-, rfl, -⟩
      · simp [htag]
      · rfl

end Turn

/-- The sources are told apart and what is asked of them is noted. -/
structure Observed (s : Scan κ α (σ × List (Request κ α))) : Prop where
  distinct : (s.sources.map (·.tag)).Nodup
  noted : ∀ t ∈ s.sources, t.Noted id

section Call

variable [DecidableEq κ] {s t : Scan κ α (σ × List (Request κ α))} {w w' : σ}
  {log log' : List (Request κ α)} {u : Use κ α σ} {event : Event κ α}

/-- What a call does to a scan, given what it asks the sources for. -/
structure Passes (u : Use κ α σ) (event : Event κ α) (requests : List (Request κ α))
    (s t : Scan κ α (σ × List (Request κ α))) : Prop where
  observed : t.Observed
  batchSize : t.batchSize = s.batchSize
  asked : ∀ r ∈ requests, ∃ x ∈ s.sources, r.source = x.tag ∧ r.offset = x.processed.toNat ∧
    r.limit = s.batchSize ∧ x.buffer = [] ∧ x.remaining ≠ 0
  position : ∀ tag, position tag t.sources =
    position tag s.sources + returnedFrom tag [event] + movedBy tag [event]
  rows : ∀ tag, ¬Drifts tag (u, event) →
    valuesFrom tag [event] ++ buffered tag t.sources =
      buffered tag s.sources ++ fetchedFrom tag requests

omit [DecidableEq κ] in
theorem Observed.of_origins (h : s.Observed)
    (horigins : t.sources.map Source.origin = s.sources.map Source.origin) : t.Observed where
  distinct := by
    rw [tags_eq_of_origins horigins]
    exact h.distinct
  noted := noted_of_origins h.noted horigins

theorem Passes.of_silent (hevent : event.row? = none) (hobserved : t.Observed)
    (hsize : t.batchSize = s.batchSize)
    (hposition : ∀ tag, Scan.position tag t.sources =
      Scan.position tag s.sources + movedBy tag [event])
    (hbuffered : ∀ tag, buffered tag t.sources = buffered tag s.sources) :
    Passes u event [] s t where
  observed := hobserved
  batchSize := hsize
  asked := List.forall_mem_nil _
  position tag := by
    rw [silent_returned hevent, hposition]
    omega
  rows tag _ := by
    rw [silent_values hevent, hbuffered, List.nil_append]
    exact (List.append_nil _).symm

theorem Observed.failed (h : s.Observed) (u : Use κ α σ) (e : ScanError κ) :
    Passes u (.failed e) [] s s :=
  .of_silent rfl h rfl (fun _ => (Int.add_zero _).symm) fun _ => rfl

theorem use_next_cases {τ : Type} {s t : Scan κ α τ} {w w' : τ}
    (h : s.use w .next = (event, t, w')) :
    ∃ r, s.next w = (r, t, w') ∧ Scan.rows [event] = t.current.toList ∧
      (∀ tag, movedBy tag [event] = 0) ∧ ∀ e, r = .error e → event = .failed e := by
  simp only [use] at h
  split at h <;> rename_i hnext
  · have hcurrent : t.current = none := by
      cases h
      cases next_advance hnext <;> rfl
    cases h
    exact ⟨_, hnext, by rw [hcurrent]; rfl, fun _ => rfl, fun _ he => by cases he; rfl⟩
  · cases h
    have hcurrent : t.current = none := by
      cases next_advance hnext
      rfl
    exact ⟨_, hnext, by rw [hcurrent]; rfl, fun _ => rfl, fun _ he => by cases he⟩
  · cases next_advance hnext with
    | returned =>
      cases h
      exact ⟨_, hnext, rfl, fun _ => rfl, fun _ he => by cases he⟩

theorem Observed.next (h : s.Observed) (huse : s.use (w, log) .next = (event, t, w', log')) :
    ∃ requests, log' = log ++ requests ∧ Passes (.next : Use κ α σ) event requests s t := by
  obtain ⟨r, hnext, hrows, hmoved, herror⟩ := use_next_cases huse
  obtain ⟨stop, sources, hrefill, hend⟩ := next_turn hnext
  obtain ⟨requests, hlog, hrefilling⟩ := refillAll_noted h.noted hrefill
  have hsupplied := hrefilling.sources_eq h.distinct
  have hobserved := h.of_origins (next_origins hnext)
  have hposition (tag : κ) : position tag sources = position tag s.sources := by
    rw [hsupplied, position_supplied]
  have hbuffered (tag : κ) :
      buffered tag sources = buffered tag s.sources ++ fetchedFrom tag requests := by
    rw [hsupplied, buffered_supplied hrefilling]
  rw [List.map_id] at hlog
  refine ⟨requests, hlog, ?_⟩
  cases stop with
  | some e =>
    obtain ⟨-, rfl⟩ := hend
    refine ⟨hobserved, rfl, fun r => hrefilling.mem, fun tag => ?_, fun tag _ => ?_⟩
    · rw [returnedFrom, hrows, hmoved, hposition]
      simp
    · rw [valuesFrom, hrows, hbuffered]
      rfl
  | none =>
    obtain ⟨sources', current, hturn, rfl⟩ := hend
    have hdistinct : (sources.map (·.tag)).Nodup := by
      rw [tags_eq_of_origins (origins_refills (refillAll_refills hrefill))]
      exact h.distinct
    refine ⟨hobserved, rfl, fun r => hrefilling.mem, fun tag => ?_,
      fun tag hcounted => ?_⟩
    · rw [returnedFrom, hrows, hmoved, hturn.position_eq hdistinct, hposition, Int.add_zero]
    · rw [valuesFrom, hrows, ← hbuffered]
      apply hturn.buffered_eq hdistinct
      intro hdrift
      exact hcounted (by rw [Drifts, herror _ hdrift])

theorem Observed.add (h : s.Observed) {tag : κ} {count : UInt64}
    {fetchPage : Nat → Nat → σ → Except String (List α) × σ}
    (hnew : tag ∉ s.sources.map (·.tag)) (u : Use κ α σ) :
    Passes u (.added tag count) [] s
      { s with sources := s.sources ++ [.start tag count (Scan.noted id tag fetchPage)] } := by
  have hdistinct : ((s.sources ++
      [Source.start tag count (Scan.noted id tag fetchPage)]).map (·.tag)).Nodup := by
    rw [List.map_append, List.map_singleton, ← List.concat_eq_append]
    exact h.distinct.concat hnew
  refine .of_silent rfl ⟨hdistinct, fun x hx => ?_⟩ rfl (fun x => ?_)
    fun x => buffered_added hdistinct rfl x
  · rcases List.mem_append.mp hx with hx | hx
    · exact h.noted x hx
    · rw [List.mem_singleton.mp hx]
      exact ⟨fetchPage, rfl⟩
  · rw [position_added hdistinct rfl]
    exact (Int.add_zero _).symm

theorem move_outcome {τ : Type} {s : Scan κ α τ} (hdistinct : (s.sources.map (·.tag)).Nodup)
    (tag : κ) (delta : Int) :
    (∃ before x after processed, s.sources = before ++ x :: after ∧ x.tag = tag ∧
      (processed.toNat : Int) = x.processed.toNat + delta ∧
      s.move tag delta = .ok { s with sources := before ++ { x with processed } :: after }) ∨
    ((∃ e, s.move tag delta = .error e) ∧
      ∀ x ∈ s.sources, x.tag = tag → (x.processed.toNat : Int) + delta < 0 ∨
        (UInt64.size : Int) ≤ x.processed.toNat + delta) := by
  unfold move source?
  cases hfound : s.sources.find? fun x => x.tag = tag with
  | none =>
    refine Or.inr ⟨⟨_, rfl⟩, fun x hx htag => ?_⟩
    exact absurd (decide_eq_true htag) (List.find?_eq_none.mp hfound x hx)
  | some x =>
    obtain ⟨htag, before, after, hsplit, -⟩ := List.find?_eq_some_iff_append.mp hfound
    obtain rfl : x.tag = tag := of_decide_eq_true htag
    have hthe : ∀ y ∈ s.sources, y.tag = x.tag → y = x := fun y hy heq =>
      List.inj_on_of_nodup_map hdistinct hy (List.mem_of_find?_eq_some hfound) heq
    rcases Source.move_cases x delta with ⟨processed, hok, hp⟩ | ⟨hless, herror⟩ | ⟨hmore, herror⟩
    · refine Or.inl ⟨before, x, after, processed, hsplit, rfl, hp, ?_⟩
      rw [hsplit] at hdistinct ⊢
      have hreplaced : (before ++ x :: after).map
          (fun y => if y.tag = x.tag then { x with processed } else y) = _ := map_replace hdistinct
      simp only [hok, ← hreplaced]
      rfl
    · refine Or.inr ⟨⟨_, by simp only [herror]; rfl⟩, fun y hy heq => Or.inl ?_⟩
      rwa [hthe y hy heq]
    · refine Or.inr ⟨⟨_, by simp only [herror]; rfl⟩, fun y hy heq => Or.inr ?_⟩
      rwa [hthe y hy heq]

theorem Observed.move (h : s.Observed) {tag : κ} {delta : Int} (hmove : s.move tag delta = .ok t)
    (u : Use κ α σ) : Passes u (.moved tag delta) [] s t := by
  have hdistinct := h.distinct
  rcases move_outcome h.distinct tag delta with
    ⟨before, x, after, p, hsplit, rfl, hp, hok⟩ | hfailed
  · rw [hmove] at hok
    obtain rfl := Except.ok.inj hok
    rw [hsplit] at hdistinct
    have hsame : (before ++ { x with processed := p } :: after).map Source.origin =
        s.sources.map Source.origin := by
      simp only [hsplit, List.map_append, List.map_cons, Source.origin]
    refine .of_silent rfl (h.of_origins hsame) rfl (fun tag => ?_) fun tag => ?_
    · have hshift : (p.toNat : Int) - x.processed.toNat = delta := by omega
      have hmoved : movedBy tag [(.moved x.tag delta : Event κ α)] =
          if x.tag = tag then delta else 0 := Int.add_zero _
      simp only [hsplit]
      rw [position_replace hdistinct (u := { x with processed := p }) rfl, hmoved, hshift]
    · simp only [hsplit]
      rw [buffered_replace hdistinct (u := { x with processed := p }) rfl]
      by_cases htag : x.tag = tag
      · rw [if_pos htag, ← htag]
        exact (buffered_of_mem hdistinct (List.mem_append_right before List.mem_cons_self)).symm
      · rw [if_neg htag]
  · obtain ⟨⟨e, herror⟩, -⟩ := hfailed
    rw [hmove] at herror
    cases herror

theorem Observed.use (h : s.Observed) (huse : s.use (w, log) u.noted = (event, t, w', log')) :
    ∃ requests, log' = log ++ requests ∧ Passes u event requests s t := by
  cases u with
  | add tag count fetchPage =>
    simp only [Use.noted, Scan.use, Scan.add] at huse
    split at huse <;> rename_i hadd
    · split at hadd
      · cases hadd
      · rename_i hnew
        cases hadd
        cases huse
        exact ⟨[], (List.append_nil _).symm, h.add hnew _⟩
    · cases huse
      exact ⟨[], (List.append_nil _).symm, h.failed _ _⟩
  | next => exact h.next huse
  | move tag delta =>
    simp only [Use.noted, Scan.use] at huse
    split at huse <;> rename_i hmove
    · cases huse
      exact ⟨[], (List.append_nil _).symm, h.move hmove _⟩
    · cases huse
      exact ⟨[], (List.append_nil _).symm, h.failed _ _⟩

theorem Observed.run (h : s.Observed) {uses : List (Use κ α σ)} {events : List (Event κ α)}
    (hrun : s.run (w, log) (uses.map Use.noted) = (events, t, w', log')) :
    ∃ requests, log' = log ++ requests ∧ t.Observed ∧ t.batchSize = s.batchSize ∧
      (∀ tag, position tag t.sources =
        position tag s.sources + returnedFrom tag events + movedBy tag events) ∧
      ∀ tag, (∀ call ∈ uses.zip events, ¬Drifts tag call) →
        valuesFrom tag events ++ buffered tag t.sources =
          buffered tag s.sources ++ fetchedFrom tag requests := by
  induction uses generalizing s w log events with
  | nil =>
    cases hrun
    exact ⟨[], (List.append_nil _).symm, h, rfl, fun _ => by simp [returnedFrom, movedBy, rows],
      fun _ _ => (List.append_nil _).symm⟩
  | cons u uses ih =>
    rw [List.map_cons, Scan.run] at hrun
    split at hrun
    rename_i event s₁ world huse
    obtain ⟨w₁, log₁⟩ := world
    split at hrun
    rename_i later _ _ hlater
    cases hrun
    obtain ⟨asked, rfl, hpasses⟩ := h.use huse
    obtain ⟨requests, rfl, hobserved, hsize, hposition, hrows⟩ := ih hpasses.observed hlater
    refine ⟨asked ++ requests, List.append_assoc _ _ _, hobserved, hsize.trans hpasses.batchSize,
      fun tag => ?_, fun tag hcounted => ?_⟩
    · rw [hposition, hpasses.position, returnedFrom_cons tag event later,
        movedBy_cons tag event later]
      omega
    · rw [List.zip_cons_cons, List.forall_mem_cons] at hcounted
      rw [valuesFrom_cons, List.append_assoc, hrows tag hcounted.2, ← List.append_assoc,
        hpasses.rows tag hcounted.1, fetchedFrom_append, List.append_assoc]

end Call

/-- Through any session, however its pages are answered, the next page of a source begins at the
number of its rows returned and its accepted moves together. It is asked for there and nowhere else,
with the batch size as limit, and only if nothing is buffered and rows are expected. A move is
accepted exactly if the source exists and the new position is a machine word, and then changes this
position and nothing else; otherwise it changes nothing. The rows that a source returns from any
moment on are those buffered then and the later pages, in this order, as long as no position after a
returned row fails to be a machine word. -/
theorem moves_exact [DecidableEq κ] {comparator : Comparator κ α} {batchSize : Nat}
    {begun s : Scan κ α (σ × List (Request κ α))} {w w' : σ} {log : List (Request κ α)}
    {uses : List (Use κ α σ)} {events : List (Event κ α)}
    (hbegun : withBatchSize comparator batchSize = .ok begun)
    (hrun : begun.run (w, []) (uses.map Use.noted) = (events, s, w', log)) :
    (∀ x ∈ s.sources,
      (x.processed.toNat : Int) = returnedFrom x.tag events + movedBy x.tag events) ∧
    (∀ u event t w'' log', s.use (w', log) (Use.noted u) = (event, t, w'', log') →
      ∃ requests, log' = log ++ requests ∧ ∀ r ∈ requests, r.limit = batchSize ∧
        (r.offset : Int) = returnedFrom r.source events + movedBy r.source events ∧
        ∃ x ∈ s.sources, x.tag = r.source ∧ x.buffer = [] ∧ x.remaining ≠ 0) ∧
    (∀ tag delta world event t world', s.use world (.move tag delta) = (event, t, world') →
      world' = world ∧
      (event = .moved tag delta ↔ ∃ x ∈ s.sources, x.tag = tag ∧
        0 ≤ (x.processed.toNat : Int) + delta ∧
        (x.processed.toNat : Int) + delta < UInt64.size) ∧
      (event = .moved tag delta → ∃ before x after processed,
        s.sources = before ++ x :: after ∧ x.tag = tag ∧
        (processed.toNat : Int) = x.processed.toNat + delta ∧
        t = { s with sources := before ++ { x with processed } :: after }) ∧
      (event ≠ .moved tag delta → (∃ e, event = .failed e) ∧ t = s)) ∧
    ∀ (later : List (Use κ α σ)) events' t w'' log',
      s.run (w', log) (later.map Use.noted) = (events', t, w'', log') →
      ∃ requests, log' = log ++ requests ∧ ∀ x ∈ s.sources,
        (∀ call ∈ later.zip events', ¬Drifts x.tag call) →
        valuesFrom x.tag events' ++ buffered x.tag t.sources =
          x.buffer ++ fetchedFrom x.tag requests := by
  obtain ⟨hnone, hsize⟩ : begun.sources = [] ∧ begun.batchSize = batchSize := by
    unfold withBatchSize at hbegun
    split at hbegun
    · cases hbegun
      exact ⟨rfl, rfl⟩
    · cases hbegun
  have hfirst : begun.Observed := by
    constructor <;> simp [hnone]
  obtain ⟨requests, -, hobserved, hsame, hposition, -⟩ := hfirst.run hrun
  have hprocessed : ∀ x ∈ s.sources,
      (x.processed.toNat : Int) = returnedFrom x.tag events + movedBy x.tag events := by
    intro x hx
    rw [← position_of_mem hobserved.distinct hx, hposition, hnone]
    exact congrArg (· + _) (Int.zero_add _)
  refine ⟨hprocessed, ?_, ?_, ?_⟩
  · intro u event t w'' log' huse
    obtain ⟨asked, hlog, hpasses⟩ := hobserved.use huse
    refine ⟨asked, hlog, fun r hr => ?_⟩
    obtain ⟨x, hx, htag, hoffset, hlimit, hempty, hexpected⟩ := hpasses.asked r hr
    refine ⟨by rw [hlimit, hsame, hsize], ?_, x, hx, htag.symm, hempty, hexpected⟩
    rw [hoffset, htag]
    exact hprocessed x hx
  · intro tag delta world event t world' huse
    simp only [Scan.use] at huse
    rcases move_outcome hobserved.distinct tag delta with
      ⟨before, x, after, p, hsplit, rfl, hp, hok⟩ | ⟨⟨e, herror⟩, hrange⟩
    · rw [hok] at huse
      cases huse
      have hlt : p.toNat < UInt64.size := p.toNat_lt
      refine ⟨rfl, iff_of_true rfl ⟨x, ?_, rfl, by omega, by omega⟩,
        fun _ => ⟨before, x, after, p, hsplit, rfl, hp, rfl⟩, fun hne => absurd rfl hne⟩
      rw [hsplit]
      exact List.mem_append_right before List.mem_cons_self
    · rw [herror] at huse
      cases huse
      have hfailed : (Event.failed e : Event κ α) ≠ .moved tag delta := by simp
      refine ⟨rfl, iff_of_false hfailed ?_, fun heq => absurd heq hfailed, fun _ => ⟨⟨e, rfl⟩, rfl⟩⟩
      rintro ⟨x, hx, htag, hlow, hhigh⟩
      have hout := hrange x hx htag
      omega
  · intro later events' t w'' log' hlater
    obtain ⟨requests, hlog, -, -, -, hrows⟩ := hobserved.run hlater
    refine ⟨requests, hlog, fun x hx hcounted => ?_⟩
    rw [hrows x.tag hcounted, buffered_of_mem hobserved.distinct hx]

namespace Sample

def pages (rows : List Nat) (offset limit calls : Nat) : Except String (List Nat) × Nat :=
  (.ok ((rows.drop offset).take (limit + calls % 2)), calls + 1)

def skips : List (Use Char Nat Nat) :=
  [.add 'a' 5 (pages [1, 2, 3, 4, 5, 6]), .add 'b' 1 (pages [9]), .next, .move 'a' 3, .next, .next,
    .move 'a' (-4), .move 'a' (-3), .move 'c' 1, .next, .next]

def watched : Scan Char Nat (Nat × List (Request Char Nat)) :=
  ⟨fun c d => compare c.value d.value, 2, Nat.two_pos, [], none⟩

end Sample

theorem moves_exact_skips :
    (Sample.watched.run (0, []) (Sample.skips.map Use.noted)).1 =
        [.added 'a' 5, .added 'b' 1, .returned ⟨'a', 1⟩, .moved 'a' 3, .returned ⟨'a', 2⟩,
          .returned ⟨'a', 6⟩, .moved 'a' (-4), .failed (.negativePosition 'a' (-3) (-1)),
          .failed (.unknownSource 'c'), .returned ⟨'a', 3⟩, .returned ⟨'a', 4⟩] ∧
      (Sample.watched.run (0, []) (Sample.skips.map Use.noted)).2.2.2 =
        [⟨'a', 0, 2, .ok [1, 2]⟩, ⟨'b', 0, 2, .ok [9]⟩, ⟨'a', 5, 2, .ok [6]⟩,
          ⟨'a', 2, 2, .ok [3, 4, 5]⟩] ∧
      ∀ x ∈ (Sample.watched.run (0, []) (Sample.skips.map Use.noted)).2.1.sources,
        (x.processed.toNat : Int) =
          returnedFrom x.tag (Sample.watched.run (0, []) (Sample.skips.map Use.noted)).1 +
            movedBy x.tag (Sample.watched.run (0, []) (Sample.skips.map Use.noted)).1 :=
  have hbegun : withBatchSize (fun c d : Candidate Char Nat => compare c.value d.value) 2 =
      .ok Sample.watched := rfl
  ⟨by decide +kernel, by decide +kernel, (moves_exact hbegun rfl).1⟩

end SearchSync.Scan
