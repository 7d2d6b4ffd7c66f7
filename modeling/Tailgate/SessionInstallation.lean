import Mathlib.Data.Nat.ModEq
import Tailgate.ControlReconnection
import Tailgate.Throwing

/-!
# Sessions of networks that have been abandoned

The connection is to install what a worker has built only if the network is still
the one the worker was started under, to have one worker at most, and not to
forget to reconnect. `Sound` is what every event keeps of it, whatever is
answered and whatever the clock reads. Network changes are counted in 64 bits.
-/

namespace Tailgate

open Procedure List Throwing

/-! ## What a worker posts -/

/-- **The result of a worker**: it carries the count the worker was started
under, the session is the worker's, and there is one unless something was
thrown. -/
structure ReconnectResult.Of (r : ReconnectResult) (origin : Origin) : Prop where
  generation : r.generation = origin.generation
  session : ∀ x, r.session = some x → x.origin = origin
  /-- There is one unless something was thrown. -/
  isSome : r.error = none → ∃ x, r.session = some x

namespace ReconnectWorker

theorem tell_origin {α : Type} {val : Option α} {ans : Except Thrown Unit}
    {f : α → ControlSession → ControlSession} {sess sess' : ControlSession}
    (h : tell val ans f sess = .ok sess') (hf : ∀ a x, (f a x).origin = x.origin) :
    sess'.origin = sess.origin := by
  cases val with
  | none =>
    cases h
    rfl
  | some a =>
    obtain ⟨_, -, h⟩ := of_bind_ok h
    cases h
    exact hf a sess

theorem build_origin {w : ReconnectWorker} {ans : WorkerAnswers} {sess : ControlSession}
    {net : NetworkConfig} (h : w.build ans = .ok (sess, net)) :
    sess.origin = w.origin := by
  obtain ⟨_, -, h⟩ := of_bind_ok h
  obtain ⟨keyed, hky, h⟩ := of_bind_ok h
  obtain ⟨told, htl, h⟩ := of_bind_ok h
  obtain ⟨_, -, h⟩ := of_bind_ok h
  have hkey : keyed.origin = w.origin := tell_origin hky fun _ _ => rfl
  have hor : told.origin = w.origin := (tell_origin htl fun _ _ => rfl).trans hkey
  split at h
  · obtain ⟨_, -, h⟩ := of_bind_ok h
    obtain ⟨_, -, h⟩ := of_bind_ok h
    cases h
    exact hor
  · cases h

theorem result_of (w : ReconnectWorker) (answers : WorkerAnswers) :
    (w.result answers).Of w.origin := by
  unfold result
  cases hbl : w.build answers with
  | ok built =>
    obtain ⟨session, _⟩ := built
    refine ⟨rfl, fun x hx => ?_, fun _ => ⟨session, rfl⟩⟩
    cases hx
    exact build_origin hbl
  | error => exact ⟨rfl, fun _ hx => (nomatch hx), fun her => (nomatch her)⟩

end ReconnectWorker

/-- **A session that was of the current network when it was installed**: the
worker that has built it was started under the same count of changes, so with
no change since, or a multiple of 2⁶⁴ of them. -/
structure Installation.Current (i : Installation) : Prop where
  worker : i.session.origin.worker ≠ none
  generation : i.session.origin.generation = i.generation
  /-- The numbers of changes are the same, as far as they are counted. -/
  changes : i.session.origin.changes ≡ i.changes [MOD 2 ^ 64]

namespace ConnectionImpl

/-! ## What every event keeps -/

/-- **A sound connection.** -/
structure Sound (s : ConnectionImpl) : Prop where
  /-- There is one worker at most, the one whose thread has not been joined. -/
  thread : s.workers = [] ∧ s.reconnectThread = none ∨
    ∃ w, s.workers = [w] ∧ s.reconnectThread = some w.number
  /-- While there is a worker, the connection knows. -/
  busy : s.workers ≠ [] → s.reconnectInProgress = true
  idle : s.reconnectInProgress = true → s.session = none
  /-- What has been posted is from the worker. -/
  posted : ∀ r, s.reconnectResult = some r → ∃ w, s.workers = [w] ∧ w.posted = true ∧ r.Of w.origin
  counted : s.networkGeneration = .ofNat s.changes
  /-- A worker knows the count it was started under. -/
  workers : ∀ w ∈ s.workers, w.generation = .ofNat w.changes
  /-- The session is of the current network. -/
  held : ∀ x, s.session = some x → x.origin.generation = s.networkGeneration
  /-- It is the first one, or it has been installed. -/
  logged : ∀ x, s.session = some x → x.origin.worker ≠ none →
    ∃ i ∈ s.installed, i.session.origin = x.origin
  /-- A worker has built what has been installed, for the network of then. -/
  installed : ∀ i ∈ s.installed, i.Current
  delay : s.reconnectDelay ≤ maximumReconnectDelay
  /-- Without a session, the time to reconnect is not far off. -/
  next : s.session = none → s.nextReconnect ≤ s.scheduledAt + maximumReconnectDelay

variable {s : ConnectionImpl}

theorem read_eq (s : ConnectionImpl) : ∃ time readings, s.read.2 = { s with time, readings } := by
  unfold read
  cases s.readings with
  | nil => exact ⟨s.time, s.readings, rfl⟩
  | cons t readings => exact ⟨t, readings, rfl⟩

theorem sound_connected (opts : ControlSessionOptions) (time : ℕ) :
    Sound (connected opts time) where
  thread := .inl ⟨rfl, rfl⟩
  busy h := absurd rfl h
  idle h := absurd h Bool.false_ne_true
  posted _ h := nomatch h
  counted := rfl
  workers := nofun
  held x hx := by
    cases hx
    rfl
  logged x hx hwr := by
    cases hx
    exact absurd rfl hwr
  installed := nofun
  delay := by
    show initialReconnectDelay ≤ maximumReconnectDelay
    decide
  next h := nomatch h

namespace Sound

theorem read (h : Sound s) : Sound s.read.2 := by
  obtain ⟨_, _, hrd⟩ := s.read_eq
  rw [hrd]
  exact { h with }

theorem thread_of_worker {w : ReconnectWorker} (h : Sound s) (hwk : s.workers = [w]) :
    s.reconnectThread = some w.number := by
  rcases h.thread with ⟨hnil, -⟩ | ⟨_, hv, hth⟩
  · exact absurd (hnil.symm.trans hwk) (cons_ne_nil w []).symm
  · obtain rfl := singleton_injective (hwk.symm.trans hv)
    exact hth

theorem of_workers_nil (h : Sound s) (hwk : s.workers = []) :
    s.reconnectThread = none ∧ s.reconnectResult = none := by
  have hno (w : ReconnectWorker) : s.workers ≠ [w] := fun hw =>
    cons_ne_nil w [] (hw.symm.trans hwk)
  constructor
  · rcases h.thread with ⟨-, hth⟩ | ⟨w, hw, -⟩
    · exact hth
    · exact absurd hw (hno w)
  · cases hrt : s.reconnectResult with
    | none => rfl
    | some r =>
      obtain ⟨w, hw, -⟩ := h.posted r hrt
      exact absurd hw (hno w)

theorem of_not_inProgress (h : Sound s) (hil : s.reconnectInProgress = false) :
    s.workers = [] ∧ s.reconnectThread = none ∧ s.reconnectResult = none := by
  have hwk : s.workers = [] := by
    by_contra hne
    exact Bool.false_ne_true (hil.symm.trans (h.busy hne))
  exact ⟨hwk, h.of_workers_nil hwk⟩

theorem told {x x' : ControlSession} (h : Sound s) (hx : s.session = some x)
    (hor : x'.origin = x.origin) : Sound { s with session := some x' } :=
  { h with
    idle := fun hbs => nomatch hx.symm.trans (h.idle hbs)
    held := fun y hy => by
      cases hy
      rw [hor]
      exact h.held x hx
    logged := fun y hy hwr => by
      cases hy
      rw [hor] at hwr ⊢
      exact h.logged x hx hwr
    next := nofun }

end Sound

variable {E : Thrown → ConnectionImpl → Prop}

theorem keeps_now {P : ConnectionImpl → Prop} (hP : ∀ s, P s → P s.read.2) : Keeps P E now :=
  .modifyGet hP

theorem keeps_setNextReconnect (time : ℕ) : Keeps Sound E (setNextReconnect time time) :=
  Meets.modify fun _ h => { h with next := fun _ => Nat.le_add_right time _ }

/-! ### Dropping the session -/

theorem scheduleReconnect_eq (s : ConnectionImpl) : scheduleReconnect s = .ok () { s.read.2 with
        session := none
        reconnecting := true
        nextReconnect := s.read.1 + s.reconnectDelay
        scheduledAt := s.read.1
        reconnectDelay := min (s.reconnectDelay * 2) maximumReconnectDelay } := by
  -- Whether there is a reading left decides which record the clock returns.
  rcases s
  rename_i readings
  cases readings <;> rfl

theorem keeps_scheduleReconnect : Keeps Sound E scheduleReconnect := by
  intro _ h
  rw [scheduleReconnect_eq]
  exact { h.read with
    idle := fun _ => rfl
    held := nofun
    logged := nofun
    delay := min_le_right _ _
    next := fun _ => Nat.add_le_add_left h.delay _ }

theorem changeNetwork_eq (networkInterface : Option String) (s : ConnectionImpl) :
    ∃ options, changeNetwork networkInterface s = .ok () { s.read.2 with
        networkGeneration := s.networkGeneration + 1
        changes := s.changes + 1
        workers := s.workers.map fun w =>
          if s.reconnectThread = some w.number then { w with stopRequested := true } else w
        networkAvailable := networkInterface.isSome
        options
        session := none
        reconnecting := true
        nextReconnect := s.read.1
        scheduledAt := s.read.1 } := by
  rcases s
  rename_i readings
  cases readings <;> exact ⟨_, rfl⟩

theorem stop_eq (thread : Option ℕ) (w : ReconnectWorker) :
    ∃ w', (if thread = some w.number then { w with stopRequested := true } else w) = w' ∧
      w'.number = w.number ∧ w'.posted = w.posted ∧ w'.origin = w.origin := by
  split
  all_goals exact ⟨_, rfl, rfl, rfl, rfl⟩

theorem Sound.stop (h : Sound s) : Sound { s with
        workers := s.workers.map fun w =>
          if s.reconnectThread = some w.number then { w with stopRequested := true } else w } := by
  rcases h.thread with ⟨hwk, hth⟩ | ⟨w, hwk, hth⟩
  · rw [hwk, map_nil, ← hwk]
    exact h
  · obtain ⟨w', hw', hnm, hps, hor⟩ := stop_eq s.reconnectThread w
    have hmem : w ∈ s.workers := by
      rw [hwk]
      exact mem_singleton_self w
    have hbs := h.busy (ne_nil_of_mem hmem)
    rw [hwk, map_singleton, hw']
    exact { h with
      thread := .inr ⟨w', rfl, hth.trans (congrArg some hnm.symm)⟩
      busy := fun _ => hbs
      posted := fun r hr => by
        obtain ⟨_, hv, hvp, hof⟩ := h.posted r hr
        obtain rfl := singleton_injective (hwk.symm.trans hv)
        exact ⟨w', rfl, hps.trans hvp, hor ▸ hof⟩
      workers := fun v hv => by
        rw [mem_singleton.mp hv]
        have hct := h.workers w hmem
        rw [show w'.generation = w.generation from congrArg Origin.generation hor,
          show w'.changes = w.changes from congrArg Origin.changes hor]
        exact hct }

/-- A change of the network is counted, and there is no session for the new
one. -/
theorem keeps_changeNetwork (networkInterface : Option String) :
    Keeps Sound E (changeNetwork networkInterface) := by
  intro s h
  obtain ⟨_, heq⟩ := changeNetwork_eq networkInterface s
  obtain ⟨_, _, hrd⟩ := s.read_eq
  rw [heq, hrd]
  have hcd : s.networkGeneration + 1 = .ofNat (s.changes + 1) := by
    rw [h.counted, UInt64.ofNat_add]
    rfl
  exact { h.stop with
    idle := fun _ => rfl
    counted := hcd
    held := nofun
    logged := nofun
    next := fun _ => Nat.le_add_right _ _ }

/-! ### The end of a worker -/

theorem sound_post (h : Sound s) (number : ℕ) (answers : WorkerAnswers) :
    Sound (post number answers s) := by
  unfold post
  cases hfd : s.workers.find? fun w => w.number == number && !w.posted with
  | none => exact h
  | some worker =>
    rcases h.thread with ⟨hwk, -⟩ | ⟨w, hwk, hth⟩
    · rw [hwk] at hfd
      cases hfd
    · have hmem := mem_of_find?_eq_some hfd
      rw [hwk] at hmem
      obtain rfl := mem_singleton.mp hmem
      have hnm : worker.number = number := by
        have hso := find?_some hfd
        rw [Bool.and_eq_true] at hso
        exact eq_of_beq hso.1
      have hmap : (s.workers.map fun w =>
          if w.number = number then { w with posted := true } else w) =
          [{ worker with posted := true }] := by
        rw [hwk, map_singleton, if_pos hnm]
      rw [hmap]
      exact { h with
        thread := .inr ⟨_, rfl, hth⟩
        busy := fun _ => h.busy (by rw [hwk]; exact cons_ne_nil _ _)
        posted := fun r hr => by
          cases hr
          exact ⟨_, rfl, rfl, worker.result_of answers⟩
        workers := fun w hw => by
          rw [mem_singleton.mp hw]
          exact h.workers worker (by rw [hwk]; exact mem_singleton_self _) }

variable {w : ReconnectWorker} {reconnect : ReconnectResult}

theorem join_of_posted (ans : WorkerAnswers) (hwk : s.workers = [w])
    (hth : s.reconnectThread = some w.number) (hps : w.posted = true) :
    join ans s = .ok () { s with workers := [], reconnectThread := none } := by
  have hpo : post w.number ans s = s := by
    unfold post
    rw [hwk, find?_singleton, hps]
    rw [Bool.not_true, Bool.and_false]
    rfl
  have hfl : (s.workers.filter fun v => v.number ≠ w.number) = [] := by
    rw [hwk]
    refine filter_cons_of_neg ?_
    simp
  have hrun : join ans s = .ok () { post w.number ans s with
        workers := (post w.number ans s).workers.filter fun v => v.number ≠ w.number
        reconnectThread := none } := by
    refine (bind_ok (rfl : (get : Connecting ConnectionImpl) s = .ok s s)).trans ?_
    rw [hth]
    rfl
  rw [hrun, hpo, hfl]

/-! ### Looking after the connection -/

theorem keeps_takeRequest : Preserves Sound takeRequest := by
  refine .bind .get fun s => .ite ?_ (.pure ())
  exact .bind (.modify fun _ h => { h with }) fun _ =>
    .bind keeps_scheduleReconnect fun _ =>
      .bind (keeps_now fun _ h => h.read) fun time => keeps_setNextReconnect time

theorem keeps_checkSilence : Preserves Sound checkSilence := by
  refine .bind .get fun s =>
    .bind (.ite ?_ (.pure ())) fun _ => .pure _
  exact .bind (keeps_now fun _ h => h.read) fun time =>
    .ite keeps_scheduleReconnect (.pure ())

variable (ans : MaintainAnswers)

theorem startReconnect_eq (hth : s.reconnectThread = none) : startReconnect ans s =
      (liftM ans.startThread >>= fun _ => modify withWorker : Connecting Unit)
        { s with reconnectInProgress := true } := by
  have hjn : whenever (s.reconnectThread.isSome = true) (join ans.worker) s = .ok () s := by
    unfold whenever
    rw [if_neg (by rw [hth]; exact Bool.false_ne_true)]
    rfl
  refine (bind_ok (rfl : (get : Connecting ConnectionImpl) s = .ok s s)).trans ?_
  exact bind_ok hjn

theorem meets_startReconnect (answers : MaintainAnswers) :
    Leads (fun s => Sound s ∧ s.session = none ∧ s.reconnectInProgress = false)
      (startReconnect answers) Sound := by
  rintro s ⟨h, hss, hil⟩
  obtain ⟨hwk, hth, hrt⟩ := h.of_not_inProgress hil
  have hsg : Sound { s with reconnectInProgress := true } :=
    { h with
      busy := fun _ => rfl
      idle := fun _ => hss }
  rw [startReconnect_eq answers hth]
  cases answers.startThread with
  | error => exact hsg
  | ok =>
    show Sound (withWorker { s with reconnectInProgress := true })
    unfold withWorker
    rw [hwk, nil_append]
    exact { hsg with
      thread := .inr ⟨_, rfl, rfl⟩
      busy := fun _ => rfl
      posted := fun r hr => nomatch hrt.symm.trans hr
      workers := fun w hw => by
        rw [mem_singleton.mp hw]
        exact h.counted }

theorem keeps_reconnectWhenDue :
    Leads (fun s => Sound s ∧ s.session = none ∧ s.reconnectInProgress = false)
      (reconnectWhenDue ans) Sound := by
  refine Meets.read fun s _ => ?_
  refine .bind (Q := fun _ => Sound) (.ite (fun _ => ?_) fun _ => ?_) fun _ =>
    Keeps.pure _
  · refine .bind (keeps_now ?_) fun time =>
      .ite (fun _ => meets_startReconnect ans) ?_
    · rintro s ⟨h, hss, hil⟩
      refine ⟨h.read, ?_⟩
      obtain ⟨_, _, hrd⟩ := s.read_eq
      rw [hrd]
      exact ⟨hss, hil⟩
    · exact fun _ => .pure fun _ hs => hs.1
  · exact .pure fun _ hs => hs.1

def Serving (s : ConnectionImpl) : Prop :=
  Sound s ∧ s.reconnectInProgress = false ∧ ∃ x, s.session = some x

/-- **What is installed is of the current network.** -/
theorem sound_install (hof : reconnect.Of w.origin) (hcd : w.generation = .ofNat w.changes)
    (her : reconnect.error = none) (h : Sound s) (hil : s.reconnectInProgress = false)
    (hge : reconnect.generation = s.networkGeneration) :
    Serving { s with
        session := reconnect.session
        installed := s.installed ++ reconnect.session.toList.map fun sess =>
          ⟨sess, s.networkGeneration, s.changes⟩ } := by
  obtain ⟨x, hx⟩ := hof.isSome her
  have hsm : x.origin.generation = s.networkGeneration := by
    rw [hof.session x hx, ← hof.generation, hge]
  have hcs : x.origin.changes ≡ s.changes [MOD 2 ^ 64] := by
    -- Both counts are those of the numbers of changes, cut to 64 bits.
    have heq : UInt64.ofNat x.origin.changes = UInt64.ofNat s.changes := by
      rw [← h.counted, ← hsm, hof.session x hx]
      exact hcd.symm
    have hnat := congrArg UInt64.toNat heq
    exact hnat
  refine ⟨{ h with
    idle := fun hbs => absurd (hil.symm.trans hbs) Bool.false_ne_true
    held := fun y hy => ?_
    logged := fun y hy _ => ?_
    installed := fun i hi => ?_
    next := fun hno => absurd (hno.symm.trans hx) nofun }, hil, x, hx⟩
  · cases hx.symm.trans hy
    exact hsm
  · cases hx.symm.trans hy
    rw [hx]
    exact ⟨_, mem_append_right _ (mem_singleton_self _), rfl⟩
  · rw [hx] at hi
    rcases mem_append.mp hi with hi | hi
    · exact h.installed i hi
    · rw [mem_singleton.mp hi]
      refine ⟨?_, hsm, hcs⟩
      rw [hof.session x hx]
      exact nofun

theorem meets_liftServing {α : Type} (y : Except Thrown α) :
    Meets Serving (liftM y : Connecting α) (fun _ => Serving) (fun _ => Sound) :=
  .lift (fun _ _ _ hs => hs) fun _ _ _ hs => hs.1

theorem meets_install (hof : reconnect.Of w.origin)
    (hcd : w.generation = .ofNat w.changes) (her : reconnect.error = none) :
    Leads (fun s => Sound s ∧ s.reconnectInProgress = false ∧
        reconnect.generation = s.networkGeneration)
      (install ans reconnect) Sound := by
  have hnb (s : ConnectionImpl) (hs : Serving s) :
      Serving { s with session := s.session.map fun x => { x with nonBlocking := true } } := by
    obtain ⟨h, hil, _, hx⟩ := hs
    rw [hx]
    exact ⟨h.told hx rfl, hil, _, rfl⟩
  have hqt (s : ConnectionImpl) (hs : Serving s) : Serving { s with
          reconnecting := false
          nextReconnect := timePointMax
          reconnectDelay := initialReconnectDelay } := by
    obtain ⟨h, hil, x, hx⟩ := hs
    exact ⟨{ h with
      delay := by
        show initialReconnectDelay ≤ maximumReconnectDelay
        decide
      next := fun hno => absurd (hno.symm.trans hx) nofun }, hil, x, hx⟩
  have hrd (s : ConnectionImpl) (hs : Serving s) : Serving s.read.2 := by
    obtain ⟨h, hrs⟩ := hs
    refine ⟨h.read, ?_⟩
    obtain ⟨_, _, hrd⟩ := s.read_eq
    rw [hrd]
    exact hrs
  -- From the first step on there is a session, and whatever is thrown leaves
  -- it in place.
  refine .bind (.modify (Q := fun _ => Serving) ?_) fun _ =>
    .bind (meets_liftServing _) fun _ => .bind (.modify hnb) fun _ =>
      .bind (meets_liftServing _) fun _ => .bind (meets_liftServing _) fun _ =>
        .bind (.modify hqt) fun _ => .bind (keeps_now hrd) fun time =>
          .bind (Q := fun _ => Sound) (.modify fun s hs => { hs.1 with }) fun _ => ?_
  · rintro _ ⟨h, hil, hge⟩
    exact sound_install hof hcd her h hil hge
  · cases reconnect.network with
    | none => exact Keeps.pure []
    | some =>
      exact Keeps.bind (Keeps.ite (Meets.modify fun _ h => { h with }) (Keeps.pure ())) fun _ =>
        .pure _

theorem meets_finishReconnect (hof : reconnect.Of w.origin)
    (hcd : w.generation = .ofNat w.changes) :
    Leads (fun s => Sound s ∧ s.reconnectInProgress = false)
      (finishReconnect ans reconnect) Sound := by
  refine .look fun s hs => .ite (fun _ => ?_) fun hge => ?_
  · refine .bind (Q := fun _ => Sound) ?_ fun time =>
      Keeps.bind (keeps_setNextReconnect time) fun _ => Keeps.pure []
    rintro _ rfl
    exact hs.1.read
  · cases her : reconnect.error with
    | none =>
      exact (meets_install ans hof hcd her).starting ⟨hs.1, hs.2, not_not.mp hge⟩
    | some thrown =>
      cases thrown with
      | standard =>
        exact Meets.starting (Keeps.bind keeps_scheduleReconnect fun _ => Keeps.pure []) hs.1
      | other =>
        rintro _ rfl
        exact hs.1

theorem collectReconnect_of_none (hrt : s.reconnectResult = none) :
    collectReconnect ans s = .ok [] { s with reconnectResult := none } := by
  refine (bind_ok (modifyGet_ok rfl)).trans ?_
  rw [hrt]
  rfl

theorem keeps_collectReconnect : Preserves Sound (collectReconnect ans) := by
  intro s h
  cases hrt : s.reconnectResult with
  | none =>
    rw [collectReconnect_of_none ans hrt]
    exact { h with posted := fun _ hr => nomatch hr }
  | some reconnect =>
    obtain ⟨w, hwk, hps, hof⟩ := h.posted reconnect hrt
    have hmem : w ∈ s.workers := by
      rw [hwk]
      exact mem_singleton_self w
    have hth := h.thread_of_worker hwk
    have hrun : collectReconnect ans s = finishReconnect ans reconnect { s with
          reconnectResult := none
          workers := []
          reconnectThread := none
          reconnectInProgress := false } := by
      refine (bind_ok (modifyGet_ok rfl)).trans ?_
      rw [hrt]
      exact bind_ok (join_of_posted (s := { s with reconnectResult := none }) ans.worker
        hwk hth hps)
    rw [hrun]
    -- The worker is gone once it has been joined, and its result is at hand.
    refine meets_finishReconnect ans hof (h.workers w hmem) _ ⟨?_, rfl⟩
    exact { h with
      thread := .inl ⟨rfl, rfl⟩
      busy := fun hne => absurd rfl hne
      idle := fun hbs => absurd hbs Bool.false_ne_true
      posted := fun _ hr => nomatch hr
      workers := nofun }

theorem keeps_maintain : Preserves Sound (maintain ans) := by
  refine .bind keeps_takeRequest fun _ => .look fun s h => ?_
  refine .ite (fun _ => ?_) fun hss => .ite (fun hil => ?_) fun _ => ?_
  · exact keeps_checkSilence.starting h
  · refine (keeps_reconnectWhenDue ans).starting ⟨h, ?_, hil⟩
    exact Option.not_isSome_iff_eq_none.mp hss
  · exact (keeps_collectReconnect ans).starting h

/-! ### All events

What the calls have in common is said once, of any property: it is enough to
know how the property fares when the session is dropped or told something, with
the calls that do more, and that it does not look at what the others write.
-/

/-- **What an invariant of a connection has to withstand.** -/
structure Invariant (P : ConnectionImpl → Prop) : Prop where
  read : ∀ s, P s → P s.read.2
  lastActivity : ∀ s lastActivity, P s → P { s with lastActivity }
  /-- Being told of a key, of endpoints, of a region and of what is expected. -/
  settings : ∀ s discoPrivateKey endpoints preferredDerp streaming, P s →
    P { s with discoPrivateKey, endpoints, preferredDerp, streaming }
  request : ∀ s, P s → P { s with reconnectRequested := true }
  told : ∀ s x x', P s → s.session = some x → x'.origin = x.origin → P { s with session := some x' }
  scheduleReconnect : Keeps P (fun _ => P) scheduleReconnect
  maintain : ∀ answers, Keeps P (fun _ => P) (maintain answers)
  changeNetwork : ∀ networkInterface, Keeps P (fun _ => P) (changeNetwork networkInterface)
  post : ∀ s number answers, P s → P (post number answers s)

namespace Invariant

variable {P : ConnectionImpl → Prop} (hP : Invariant P)
include hP

theorem keeps_interrupted (networkMaps : List NetworkConfig) (thrown : Thrown) :
    Preserves P (interrupted networkMaps thrown) := by
  cases thrown with
  | standard => exact .bind hP.scheduleReconnect fun _ => .pure _
  | other => exact .throw fun _ h => h

theorem keeps_pollEvent (readiness : Readiness) (answers : EventAnswers) :
    Preserves P (pollEvent readiness answers) := by
  unfold pollEvent
  dsimp only
  split
  · exact hP.keeps_interrupted [] _
  · refine .bind (.ite ?_ (.pure ())) fun _ => ?_
    · exact .bind (keeps_now hP.read) fun time => .modify fun s => hP.lastActivity s time
    · cases answers.updateWriteInterest with
      | error thrown => exact hP.keeps_interrupted _ thrown
      | ok => exact .pure _

theorem keeps_processEvent (token : ℕ) (readiness : Readiness) (ans : EventAnswers) :
    Preserves P (processEvent token readiness ans) :=
  .bind .get fun _ => .ite (.pure _) <|
    .ite (.bind hP.scheduleReconnect fun _ => .pure _) (hP.keeps_pollEvent readiness ans)

omit hP in
theorem meets_activeSession :
    Meets P activeSession (fun x s => P s ∧ s.session = some x) (fun _ => P) := by
  refine .look fun s h => ?_
  cases hss : s.session with
  | none =>
    rintro _ rfl
    exact h
  | some =>
    rintro _ rfl
    exact ⟨h, hss⟩

theorem keeps_onSession (ans : Except Thrown Unit) {f : ControlSession → ControlSession}
    (hf : ∀ x, (f x).origin = x.origin) : Preserves P (onSession ans f) := by
  refine Meets.bind meets_activeSession fun x => ?_
  refine .bind (Q := fun _ s => P s ∧ s.session = some x) ?_ fun _ => ?_
  · exact .lift (fun _ _ _ hs => hs) fun _ _ _ hs => hs.1
  · exact .modify fun s hs => hP.told s x (f x) hs.1 hs.2 (hf x)

theorem keeps_registerUntilAuthorized (ans : Except Thrown RegistrationResult)
    (key : Bytes) : Preserves P (registerUntilAuthorized ans key) := by
  refine Meets.bind meets_activeSession fun x => ?_
  refine .bind (Q := fun _ => P) ?_ fun res => ?_
  · exact .lift (fun _ _ _ hs => hs.1) fun _ _ _ hs => hs.1
  · refine Keeps.bind (Meets.modify fun s => hP.settings s (some key) _ _ _) fun _ => ?_
    cases res.network with
    | none => exact .pure _
    | some =>
      exact .bind (.ite (.modify fun s => hP.settings s _ _ (some _) _) (.pure ())) fun _ => .pure _

theorem keeps_setDiscoPrivateKey (key : Bytes) (ans : Except Thrown Unit) :
    Preserves P (setDiscoPrivateKey key ans) :=
  .bind (.modify fun s => hP.settings s (some key) _ _ _) fun _ =>
    hP.keeps_onSession ans fun _ => rfl

theorem keeps_setPreferredDerp (r : ℤ) (ans : Except Thrown Unit) :
    Preserves P (setPreferredDerp r ans) :=
  .bind (.modify fun s => hP.settings s _ _ (some r) _) fun _ =>
    hP.keeps_onSession ans fun _ => rfl

theorem keeps_setEndpoints (endpoints : List MapEndpoint) (ans : Except Thrown Unit) :
    Preserves P (setEndpoints endpoints ans) :=
  .bind (.modify fun s => hP.settings s _ (some endpoints) _ _) fun _ =>
    .bind .get fun _ =>
      .ite (hP.keeps_onSession ans fun _ => rfl) (.pure ())

theorem keeps_startStreaming (ans : Except Thrown Unit) : Preserves P (startStreaming ans) :=
  .bind (.modify fun s => hP.settings s _ _ _ true) fun _ =>
    hP.keeps_onSession ans fun _ => rfl

/-- **Every event keeps an invariant**, whatever is answered. -/
theorem next (h : P s) (ev : Event) : P (ev.next s) := by
  cases ev with
  | processEvent token readiness anss =>
    exact (hP.keeps_processEvent token readiness anss).after h
  | maintain anss => exact (hP.maintain anss).after h
  | changeNetwork nif => exact (hP.changeNetwork nif).after h
  | requestReconnect => exact hP.request s h
  | complete num anss => exact hP.post s num anss h
  | registerUntilAuthorized ans key =>
    exact (hP.keeps_registerUntilAuthorized ans key).after h
  | setDiscoPrivateKey key ans => exact (hP.keeps_setDiscoPrivateKey key ans).after h
  | setPreferredDerp r ans => exact (hP.keeps_setPreferredDerp r ans).after h
  | setEndpoints endpoints ans => exact (hP.keeps_setEndpoints endpoints ans).after h
  | startStreaming ans => exact (hP.keeps_startStreaming ans).after h

end Invariant

theorem invariant_sound : Invariant Sound where
  read _ h := h.read
  lastActivity _ _ h := { h with }
  settings _ _ _ _ _ h := { h with }
  request _ h := { h with }
  told _ _ _ h hx hor := h.told hx hor
  scheduleReconnect := keeps_scheduleReconnect
  maintain := keeps_maintain
  changeNetwork := keeps_changeNetwork
  post _ number answers h := sound_post h number answers

theorem sound_of_reachable (h : connections.Reachable s) : Sound s := by
  refine TransitionSystem.invariant (P := Sound) ?_ ?_ h
  · rintro _ ⟨opts, time, rfl⟩
    exact sound_connected opts time
  · rintro s ⟨ev, readings⟩ _ hs rfl
    have hrd : Sound { s with readings } := { hs with }
    exact invariant_sound.next hrd ev

/-! ## Sessions of the current network -/

/-- **The connection installs no session of an abandoned network and does not
forget to reconnect.** Over every run, there is one worker at most; what is
installed was built by a worker started under the count of then, and a session
that is held and is not the first has been installed; none is held while there
is a worker; and without either, while there is a network, the time to
reconnect is at most the longest wait after it was decided. -/
theorem sessions_of_current_network (h : connections.Reachable s) : s.workers.length ≤ 1 ∧
      ((∀ i ∈ s.installed, i.Current) ∧
        ∀ x, s.session = some x → x.origin.generation = s.networkGeneration ∧
          (x.origin.worker ≠ none → ∃ i ∈ s.installed, i.session.origin = x.origin)) ∧
        (s.workers ≠ [] ∨ s.reconnectInProgress = true → s.session = none) ∧
          (s.session = none → s.workers = [] → s.networkAvailable = true →
            s.nextReconnect ≤ s.scheduledAt + maximumReconnectDelay) := by
  have hsn := sound_of_reachable h
  refine ⟨?_, ⟨hsn.installed, fun x hx => ⟨hsn.held x hx, hsn.logged x hx⟩⟩, ?_,
    fun hss _ _ => hsn.next hss⟩
  · rcases hsn.thread with ⟨hwk, -⟩ | ⟨_, hwk, -⟩
    · rw [hwk]
      exact Nat.zero_le 1
    · rw [hwk]
      exact Nat.le_refl 1
  · rintro (hwk | hbs)
    · exact hsn.idle (hsn.busy hwk)
    · exact hsn.idle hbs

/-- A network change, a worker that builds a session, and two calls to start
and to collect it. -/
def reconnectingEvents : List (Event × List ℕ) :=
  let network : NetworkConfig := { derpRegion := 1 }
  let worker : WorkerAnswers := { registerUntilAuthorized := .ok { network := some network } }
  [(.changeNetwork (some "wlan0"), [5]), (.maintain { worker }, [6]), (.complete 0 worker, []),
    (.maintain { worker }, [7])]

def reconnected : ConnectionImpl :=
  reconnectingEvents.foldl (fun s event => event.1.next { s with readings := event.2 })
    (connected {} 0)

theorem sessions_of_current_network_reconnected :
    reconnected.session.map (fun x => (x.options.networkInterface, x.origin.generation)) =
        some ("wlan0", 1) ∧
      reconnected.installed.length = 1 ∧ ∀ i ∈ reconnected.installed, i.Current := by
  have hin : connections.Reachable (connected {} 0) := .init ⟨{}, 0, rfl⟩
  have hrc : connections.Reachable reconnected :=
    hin.of_foldl (fun _ _ => rfl) reconnectingEvents
  exact ⟨by decide +kernel, by decide +kernel, (sessions_of_current_network hrc).2.1.1⟩

end ConnectionImpl

end Tailgate
