import PortLease.Proofs.Threads.Holders

/-!
The claims of a call that has not returned yet. No caller has them in hand and no other call closes them,
so that each is still as it was lent and on the call's way to be closed or returned, or is being released by
the call, or has been released.
-/

namespace PortLease.Threads

open Script (Hook terms hooksOf holdersOf terms_update terms_release
  hooksOf_update hooksOf_release)
open Pool (finished lessHeld)

variable {policy : Policy} {answers : Answers} {pool pool' : Pool Hook} {id x : LeaseId} {port : Port}
  {n : Nat} {s s' : State n} {t u : Fin n} {call call' : Call} {o : Outcome}
  {own own' freed : List LeaseId}

def Fresh (pool : Pool Hook) (id : LeaseId) : Prop :=
  (∃ p, terms pool id = some (p, .held)) ∧ hooksOf pool id = []

theorem Fresh.same (h : Fresh pool x) (hterms : terms pool' x = terms pool x)
    (hhooks : hooksOf pool' x = hooksOf pool x) : Fresh pool' x := by
  rwa [Fresh, hterms, hhooks]

theorem Over.not_held (h : Over pool x) : terms pool x ≠ some (port, .held) := by
  obtain ⟨p, state, hstate, hterms⟩ := h
  rw [hterms]
  exact fun heq => hstate (congrArg Prod.snd (Option.some.inj heq))

theorem Over.change (h : Over s.pool x) (hchange : Change s s') : Over s'.pool x := by
  obtain ⟨p, state, hstate, hterms⟩ := h
  cases hchange with
  | quiet hpool => exact ⟨p, state, hstate, by rw [hpool.terms, hterms]⟩
  | claim _ hpool =>
    have hlt := terms_lt hterms
    exact ⟨p, state, hstate, by rw [hpool, terms_lend, if_neg (Nat.ne_of_lt hlt), hterms]⟩
  | @finish id l f hl hheld hpool =>
    refine ⟨p, state, hstate, ?_⟩
    rw [hpool, terms_update hl]
    split
    · rename_i hx
      rw [hx, terms_eq hl, hheld] at hterms
      exact absurd (congrArg Prod.snd (Option.some.inj hterms)).symm hstate
    · exact hterms
  | release _ hpool => exact ⟨p, state, hstate, by rw [hpool, terms_release, hterms]⟩

def Call.todo : Call → List Section
  | .run todo _ => todo
  | _ => []

def Task.Scans : Task → Prop
  | .done => False
  | _ => True

def Call.Scans : Call → Prop
  | .probe .. => True
  | .run _ task => task.Scans
  | _ => False

inductive GivesUp (pool : Pool Hook) (own : List LeaseId) : List Section → Prop
  | nothing : GivesUp pool own []
  | close {id : LeaseId} (hid : id ∈ own) : GivesUp pool own [.close id, .drop id]
  | release {id : LeaseId} {port : Port} (hid : id ∈ own) (hover : Over pool id) :
    GivesUp pool own [.release id port, .drop id]
  | drop {id : LeaseId} (hid : id ∈ own) (hover : Over pool id) : GivesUp pool own [.drop id]

inductive Stage (pool : Pool Hook) (own freed : List LeaseId) (call : Call) : Prop
  | plain (hcall : ¬call.Scans) (hown : own = [])
  | scan (hcall : call.Scans) (hkeeps : ∀ x ∈ call.keeps, x ∈ own)
    (htodo : GivesUp pool own call.todo) (hfreed : ∀ x ∈ freed, x ∈ own)

def Fate (pool : Pool Hook) (call : Call) (releases : List LeaseId) (x : LeaseId) : Prop :=
  (x ∈ call.keeps ∧ Fresh pool x) ∨ (∃ p, (x, p) ∈ call.pending) ∨ x ∈ releases

theorem Fate.imp {releases releases' : List LeaseId} (h : Fate pool call releases x)
    (hkept : x ∈ call.keeps → Fresh pool x → x ∈ call'.keeps ∧ Fresh pool' x)
    (hpending : ∀ p, (x, p) ∈ call.pending → (x, p) ∈ call'.pending)
    (hgone : x ∈ releases → x ∈ releases') : Fate pool' call' releases' x := by
  obtain ⟨hkeeps, hfresh⟩ | ⟨p, hp⟩ | hx := h
  · exact .inl (hkept hkeeps hfresh)
  · exact .inr (.inl ⟨p, hpending p hp⟩)
  · exact .inr (.inr (hgone hx))

inductive GoesOn (pool : Pool Hook) (call : Call) (o : Outcome) : Prop
  | looks (hcall : call.Scans) (hgiven : o.given = []) (hscans : o.call.Scans)
      (htodo : o.call.todo = [])
  | discards {id : LeaseId} {task : Task} (hcall : call.Scans) (hid : id ∈ call.keeps)
      (ho : o = ⟨pool, .discard id task, [], none⟩) (htask : task.Scans)
  | runs {first : Section} {todo : List Section} {task : Task} (hcall : call = .run (first :: todo) task)
      (ho : o = ⟨first.pool pool, .run (first.next pool ++ todo) task, [], first.note⟩)

theorem goesOn_gotten {note : Option Note} (batch : Option Batch) (hcall : call.Scans)
    (h : (gotten pool' answers id note batch).call ≠ .idle) :
    GoesOn pool call (gotten pool' answers id note batch) := by
  obtain - | ⟨_ | _, _⟩ := batch
  · exact absurd rfl h
  · exact absurd rfl h
  · exact .looks hcall rfl trivial rfl

theorem Task.goesOn {task : Task} (hidle : (task.step policy answers pool).call ≠ .idle) :
    GoesOn pool (.run [] task) (task.step policy answers pool) := by
  cases task with
  | done => exact absurd rfl hidle
  | search batch busy start =>
    have hcall : (Call.run [] (.search batch busy start)).Scans := trivial
    simp only [Task.step] at hidle ⊢
    split
    · cases batch with
      | none =>
        rename_i hfind
        exact absurd (by simp [hfind]) hidle
      | some batch => exact .looks hcall rfl trivial rfl
    · rename_i port hfind
      simp only [hfind] at hidle
      split
      · exact .looks hcall rfl trivial rfl
      · rename_i hprobe
        rw [if_neg hprobe] at hidle
        exact goesOn_gotten batch hcall hidle
  | rollback todo =>
    cases todo with
    | nil => exact absurd rfl hidle
    | cons id todo => exact .discards trivial List.mem_cons_self rfl trivial

theorem Call.goesOn (hidle : (call.step policy answers pool).call ≠ .idle) :
    GoesOn pool call (call.step policy answers pool) := by
  cases call with
  | idle => exact absurd rfl hidle
  | reserve number =>
    simp only [Call.step] at hidle
    split at hidle
    · exact absurd rfl hidle
    · split at hidle <;> exact absurd rfl hidle
  | probe batch busy id port =>
    simp only [Call.step] at hidle ⊢
    split
    · rename_i hbindable
      rw [if_pos hbindable] at hidle
      exact goesOn_gotten batch trivial hidle
    · exact .discards trivial List.mem_cons_self rfl trivial
  | run todo task =>
    cases todo with
    | nil => exact task.goesOn hidle
    | cons first todo => exact .runs rfl rfl

theorem Call.given_step (ho : call.step policy answers pool = o) (hidle : o.call ≠ .idle) :
    o.given = [] := by
  cases (ho ▸ Call.goesOn (ho ▸ hidle) : GoesOn pool call o) with
  | looks _ hgiven => exact hgiven
  | discards _ _ hstep => rw [hstep]
  | runs _ hstep => rw [hstep]

theorem GivesUp.mono {todo : List Section} (h : GivesUp pool own todo)
    (hown : ∀ x ∈ own, x ∈ own') (hover : ∀ x, Over pool x → Over pool' x) :
    GivesUp pool' own' todo := by
  cases h with
  | nothing => exact .nothing
  | close hid => exact .close (hown _ hid)
  | release hid hgone => exact .release (hown _ hid) (hover _ hgone)
  | drop hid hgone => exact .drop (hown _ hid) (hover _ hgone)

theorem fresh_lend : Fresh (pool.lend port).2 pool.nextId := by
  refine ⟨⟨port, by rw [terms_lend, if_pos rfl]⟩, ?_⟩
  rw [hooksOf_lend, hooksOf, Pool.lease?_nextId]
  rfl

theorem Fresh.not_over (h : Fresh pool id) : ¬Over pool id := by
  obtain ⟨⟨p, hterms⟩, -⟩ := h
  exact fun hover => hover.not_held hterms

theorem Fresh.lease (h : Fresh pool id) :
    ∃ l, pool.lease? id = some l ∧ l.state = .held ∧ l.hooks = [] := by
  obtain ⟨⟨p, hterms⟩, hhooks⟩ := h
  obtain ⟨l, hl, heq⟩ := Option.map_eq_some_iff.mp hterms
  refine ⟨l, hl, congrArg Prod.snd heq, ?_⟩
  rwa [hooksOf, hl] at hhooks

theorem Over.lease (h : Over pool id) : ∃ l, pool.lease? id = some l ∧ l.state ≠ .held := by
  obtain ⟨p, state, hstate, hterms⟩ := h
  obtain ⟨l, hl, heq⟩ := Option.map_eq_some_iff.mp hterms
  have hsame : l.state = state := congrArg Prod.snd heq
  exact ⟨l, hl, hsame ▸ hstate⟩

theorem over_update {l : Lease Hook} {f : Lease Hook → Lease Hook} (hl : pool.lease? id = some l)
    (hf : (f l).state ≠ .held) : Over (pool.update id f) id :=
  ⟨(f l).port, (f l).state, hf, by rw [terms_update hl, if_pos rfl]⟩

theorem GivesUp.step {first : Section} {todo : List Section} (h : GivesUp pool own (first :: todo))
    (hclose : ∀ x, first = .close x → Fresh pool x ∨ Over pool x) :
    GivesUp (first.pool pool) own (first.next pool ++ todo) := by
  cases h with
  | @close id hid =>
    obtain hfresh | hover := hclose id rfl
    · obtain ⟨l, hl, hheld, hhooks⟩ := hfresh.lease
      have hfinish : pool.finish id .closed = _ := Pool.finish_held hl hheld
      simp only [Section.pool, Section.next, hfinish, afterEnd, hhooks, List.map_nil,
        List.singleton_append]
      exact .release hid (over_update hl (by simp [finished]))
    · obtain ⟨l, hl, hstate⟩ := hover.lease
      have hfinish : pool.finish id .closed = _ := Pool.finish_over hl hstate
      simp only [Section.pool, Section.next, hfinish, afterEnd, List.nil_append]
      exact .drop hid hover
  | release hid hover => exact .drop hid (hover.same (terms_release _ _ _))
  | drop hid hover =>
    obtain ⟨l, hl, hstate⟩ := hover.lease
    have hgo := Pool.letGo_more hl fun hheld => absurd hheld hstate
    simp only [Section.next, hgo, afterEnd, List.append_nil]
    exact .nothing

theorem GivesUp.fate {first : Section} {todo : List Section} {task : Task}
    {releases : List LeaseId} (h : GivesUp pool own (first :: todo))
    (hx : Fate pool (.run (first :: todo) task) releases x)
    (hclose : ∀ y, first = .close y → Fresh pool y ∨ Over pool y) :
    Fate (first.pool pool) (.run (first.next pool ++ todo) task)
      (first.note.toList.filterMap Note.release? ++ releases) x := by
  cases h with
  | @close id hid =>
    obtain hfresh | hover := hclose id rfl
    · obtain ⟨l, hl, hheld, hhooks⟩ := hfresh.lease
      have hfinish : pool.finish id .closed = _ := Pool.finish_held hl hheld
      simp only [Section.pool, Section.next, hfinish, afterEnd, hhooks, List.map_nil]
      by_cases hxid : x = id
      · exact .inr (.inl ⟨l.port, hxid ▸ List.mem_cons_self⟩)
      · refine hx.imp (fun hkept hold => ?_) (fun p hp => ?_) (fun hgone => hgone)
        · refine ⟨(List.mem_cons.mp hkept).resolve_left hxid, hold.same ?_ ?_⟩
          · rw [terms_update hl, if_neg hxid]
          · rw [hooksOf_update hl, if_neg hxid]
        · cases hp
    · obtain ⟨l, hl, hstate⟩ := hover.lease
      have hfinish : pool.finish id .closed = _ := Pool.finish_over hl hstate
      simp only [Section.pool, Section.next, hfinish, afterEnd]
      refine hx.imp (fun hkept hold => ?_) (fun p hp => ?_) (fun hgone => hgone)
      · have hxid : x ≠ id := fun heq => hold.not_over (heq ▸ hover)
        exact ⟨(List.mem_cons.mp hkept).resolve_left hxid, hold⟩
      · cases hp
  | @release id port hid hover =>
    obtain ⟨hkept, hx⟩ | ⟨p, hp⟩ | hgone := hx
    · exact .inl ⟨hkept, hx.same (terms_release _ _ _) (hooksOf_release _ _ _)⟩
    · cases List.mem_singleton.mp hp
      exact .inr (.inr List.mem_cons_self)
    · exact .inr (.inr (List.mem_cons_of_mem _ hgone))
  | @drop id hid hover =>
    obtain ⟨l, hl, hstate⟩ := hover.lease
    have hgo := Pool.letGo_more hl fun hheld => absurd hheld hstate
    simp only [Section.pool, Section.next, hgo, afterEnd]
    refine hx.imp (fun hkept hold => ?_) (fun p hp => ?_) (fun hgone => hgone)
    · refine ⟨hkept, hold.same ?_ (hooksOf_lessHeld id x)⟩
      exact (Quiet.update (f := lessHeld) (fun _ => rfl) (fun _ => rfl)).terms x
    · cases hp

theorem GivesUp.closes {first : Section} {todo : List Section} {task : Task}
    {releases : List LeaseId} (h : GivesUp pool own (first :: todo))
    (hfate : ∀ x ∈ own, Fate pool (.run (first :: todo) task) releases x)
    (hover : ∀ x ∈ releases, Over pool x) (x : LeaseId) (hx : first = .close x) :
    Fresh pool x ∨ Over pool x := by
  subst hx
  cases h with
  | close hid =>
    obtain ⟨-, hfresh⟩ | ⟨p, hp⟩ | hgone := hfate x hid
    · exact .inl hfresh
    · cases hp
    · exact .inr (hover x hgone)

theorem own_after (s : State n) (t : Fin n) (ho : (s.calls t).step policy answers s.pool = o) :
    (s.after t o).own t = o.note.toList.filterMap Note.claimed? ++ s.own t ∧
      (s.after t o).freed t = o.note.toList.filterMap Note.release? ++ s.freed t := by
  have hnote : o.note ≠ some .began := by
    cases ho ▸ (s.calls t).act policy answers s.pool with
    | pass _ hnote => obtain hnote | hnote := hnote <;> simp [hnote]
    | claim _ _ hnote => simp [hnote]
    | @run first todo task hcall hrun =>
      subst hrun
      cases first <;> simp [Section.note]
  have hsince : since t (s.after t o).trace = o.note.toList ++ since t s.trace := by
    cases h : o.note with
    | none => simp [State.after, h]
    | some note =>
      have hne : note ≠ .began := fun heq => hnote (heq ▸ h)
      simp [State.after, h, since, hne]
  simp [State.own, State.freed, hsince]

theorem mem_own_claimed (hnote : o.note = some (.claimed x port)) :
    x ∈ o.note.toList.filterMap Note.claimed? ++ own := by
  simp [hnote, Note.claimed?, Note.claim?]

theorem Stage.step {releases : List LeaseId} (h : Stage pool own freed call)
    (hfate : ∀ x ∈ own, Fate pool call releases x) (hover : ∀ x ∈ releases, Over pool x)
    (ho : call.step policy answers pool = o) (hidle : o.call ≠ .idle) :
    Stage o.pool (o.note.toList.filterMap Note.claimed? ++ own)
      (o.note.toList.filterMap Note.release? ++ freed) o.call := by
  have hon : GoesOn pool call o := ho ▸ Call.goesOn (ho ▸ hidle)
  have hown (x : LeaseId) (hx : x ∈ own) : x ∈ o.note.toList.filterMap Note.claimed? ++ own :=
    List.mem_append_right _ hx
  cases h with
  | plain hcall hnone =>
    subst hnone
    cases hon with
    | looks hscans => exact absurd hscans hcall
    | discards hscans => exact absurd hscans hcall
    | @runs first todo task hrun hstep =>
      subst hrun hstep
      apply Stage.plain
      · exact hcall
      · cases first <;> rfl
  | scan hcall hkeeps htodo hfreed =>
    have hkeeps' (x : LeaseId) (hx : x ∈ o.call.keeps) :
        x ∈ o.note.toList.filterMap Note.claimed? ++ own := by
      obtain hold | ⟨-, -, port, hnote⟩ :=
        call.keeps_step policy answers pool ho (List.mem_append_left _ hx)
      · exact hown x (hkeeps x hold)
      · exact mem_own_claimed hnote
    have hfreed' (x : LeaseId) (hx : x ∈ o.note.toList.filterMap Note.release? ++ freed) :
        x ∈ o.note.toList.filterMap Note.claimed? ++ own := by
      apply hown
      apply (List.mem_append.mp hx).elim _ (hfreed x)
      intro hnow
      cases ho ▸ call.act policy answers pool with
      | pass _ hnote => obtain hnote | hnote := hnote <;> simp [hnote, Note.release?] at hnow
      | claim _ _ hnote => simp [hnote, Note.release?] at hnow
      | @run first todo task hrun hstep =>
        subst hrun hstep
        have hgives : GivesUp pool own (first :: todo) := htodo
        cases hgives with
        | close => cases hnow
        | release hid =>
          obtain rfl := List.mem_singleton.mp hnow
          exact hid
        | drop => cases hnow
    cases hon with
    | looks _ _ hscans htodo' => exact .scan hscans hkeeps' (htodo' ▸ .nothing) hfreed'
    | discards _ hid hstep htask =>
      subst hstep
      exact .scan htask hkeeps' (.close (hkeeps _ hid)) hfreed'
    | @runs first todo task hrun hstep =>
      subst hrun hstep
      have hgives : GivesUp pool own (first :: todo) := htodo
      have hnext := hgives.step (hgives.closes hfate hover)
      exact .scan hcall hkeeps' (hnext.mono hown fun _ hgone => hgone) hfreed'

theorem Fate.step {releases : List LeaseId} (h : Stage pool own freed call)
    (hfate : ∀ x ∈ own, Fate pool call releases x) (hover : ∀ x ∈ releases, Over pool x)
    (hknown : ∀ x ∈ own, x < pool.nextId) (ho : call.step policy answers pool = o)
    (hidle : o.call ≠ .idle) (hx : x ∈ o.note.toList.filterMap Note.claimed? ++ own) :
    Fate o.pool o.call (o.note.toList.filterMap Note.release? ++ releases) x := by
  have hgiven : o.given = [] := Call.given_step ho hidle
  cases ho ▸ call.act policy answers pool with
  | pass hpool hnote _ hkeeps hpending =>
    have hold : x ∈ own := by
      obtain hnote | hnote := hnote <;> simpa [hnote, Note.claimed?, Note.claim?] using hx
    rw [hgiven, List.append_nil] at hkeeps
    refine (hfate x hold).imp ?_ (fun p hp => hpending ▸ hp) (List.mem_append_right _)
    exact fun hkept hfresh => ⟨hkeeps.mem_iff.mpr hkept, hpool ▸ hfresh⟩
  | claim _ hpool hnote _ hkeeps hpending =>
    rw [hgiven, List.append_nil] at hkeeps
    rw [hnote] at hx
    obtain rfl | hold := List.mem_cons.mp hx
    · exact .inl ⟨hkeeps.mem_iff.mpr List.mem_cons_self, hpool ▸ fresh_lend⟩
    · refine (hfate x hold).imp ?_ (fun p hp => hpending ▸ hp) (List.mem_append_right _)
      intro hkept hfresh
      refine ⟨hkeeps.mem_iff.mpr (List.mem_cons_of_mem _ hkept), hfresh.same ?_ ?_⟩
      · rw [hpool, terms_lend, if_neg (Nat.ne_of_lt (hknown x hold))]
      · rw [hpool, hooksOf_lend]
  | @run first todo task hrun hstep =>
    subst hrun hstep
    have hold : x ∈ own := by cases first <;> exact hx
    cases h with
    | plain _ hnone => exact absurd hold (hnone ▸ List.not_mem_nil)
    | scan _ _ htodo _ =>
      have hgives : GivesUp pool own (first :: todo) := htodo
      exact hgives.fate (hfate x hold) (hgives.closes hfate hover)

structure Owned (s : State n) (t : Fin n) : Prop where
  stage : Stage s.pool (s.own t) (s.freed t) (s.calls t)
  fate : ∀ x ∈ s.own t, Fate s.pool (s.calls t) s.releases x
  inHand : ∀ x ∈ s.own t, x ∉ s.hands
  apart : ∀ x ∈ s.own t, ∀ u, u ≠ t → x ∉ (s.calls u).keeps

theorem mem_since {trace : List (Fin n × Note)} {note : Note} (h : note ∈ since t trace) :
    (t, note) ∈ trace := by
  induction trace with
  | nil => cases h
  | cons event trace ih =>
    obtain ⟨u, first⟩ := event
    rw [since] at h
    split at h
    · rename_i hu
      split at h
      · cases h
      · obtain rfl | h := List.mem_cons.mp h
        · exact hu ▸ List.mem_cons_self
        · exact List.mem_cons_of_mem _ (ih h)
    · exact List.mem_cons_of_mem _ (ih h)

theorem own_claimed (hx : x ∈ s.own t) : ∃ p, (x, p) ∈ s.claims := by
  obtain ⟨note, hnote, hclaimed⟩ := List.mem_filterMap.mp hx
  obtain ⟨⟨y, p⟩, hclaim, rfl⟩ := Option.map_eq_some_iff.mp hclaimed
  exact ⟨p, List.mem_filterMap.mpr ⟨_, mem_since hnote, hclaim⟩⟩

theorem Ledger.own_known (h : Ledger s) (hx : x ∈ s.own t) : x < s.pool.nextId := by
  obtain ⟨p, hp⟩ := own_claimed hx
  obtain ⟨state, hterms⟩ := (h.claims x p).mp hp
  exact terms_lt hterms

theorem GivesUp.carried {todo : List Section} (h : GivesUp pool own todo)
    (hx : x ∈ todo.filterMap Section.closes?) : x ∈ todo.filterMap Section.drops? := by
  cases h with
  | close => exact hx
  | _ => cases hx

theorem Stage.carried (h : Stage pool own freed call) (hown : x ∈ own) (hx : x ∈ call.keeps) :
    x ∈ call.refs := by
  cases h with
  | plain _ hnone => exact absurd hown (hnone ▸ List.not_mem_nil)
  | scan hcall _ htodo _ =>
    cases call with
    | run todo task =>
      obtain hx | hx := List.mem_append.mp hx
      · exact List.mem_append_left _ (GivesUp.carried htodo hx)
      · exact List.mem_append_right _ hx
    | probe batch busy id port => exact hx
    | _ => cases hx

theorem Change.releases (h : Change s s') (hx : x ∈ s.releases) : x ∈ s'.releases := by
  cases h with
  | quiet _ _ hreleases => rwa [hreleases]
  | claim _ _ _ hreleases => rwa [hreleases]
  | finish _ _ _ _ _ _ hreleases => rwa [hreleases]
  | release _ _ _ hreleases => exact hreleases ▸ List.mem_cons_of_mem _ hx

theorem Owned.others (h : Owned s u) (hchange : Change s s') (hcalls : s'.calls u = s.calls u)
    (hsince : since u s'.trace = since u s.trace)
    (hfresh : ∀ x ∈ s.own u, x ∈ (s.calls u).keeps → Fresh s.pool x → Fresh s'.pool x)
    (hhands : ∀ x ∈ s.own u, x ∉ s'.hands)
    (hapart : ∀ x ∈ s.own u, ∀ v, v ≠ u → x ∉ (s'.calls v).keeps) : Owned s' u := by
  have hown : s'.own u = s.own u := by rw [State.own, hsince, State.own]
  have hfreed : s'.freed u = s.freed u := by rw [State.freed, hsince, State.freed]
  constructor
  · rw [hown, hfreed, hcalls]
    cases h.stage with
    | plain hcall hnone => exact .plain hcall hnone
    | scan hcall hkeeps htodo hfreed =>
      exact .scan hcall hkeeps (htodo.mono (fun _ hx => hx) fun _ hx => hx.change hchange) hfreed
  · intro x hx
    rw [hown] at hx
    rw [hcalls]
    exact (h.fate x hx).imp (fun hkept hold => ⟨hkept, hfresh x hx hkept hold⟩) (fun _ hp => hp)
      hchange.releases
  · rw [hown]
    exact hhands
  · rw [hown]
    exact hapart

theorem Held.two (h : Held s) (hut : u ≠ t) (ht : x ∈ (s.calls t).refs)
    (hu : x ∈ (s.calls u).refs) : 1 < holdersOf s.pool x := by
  have hcount := h.count x
  have hsum := Finset.add_sum_erase Finset.univ (fun v => (s.calls v).refs.count x)
    (Finset.mem_univ t)
  have hle : (s.calls u).refs.count x ≤ ∑ v ∈ Finset.univ.erase t, (s.calls v).refs.count x :=
    Finset.single_le_sum (f := fun v => (s.calls v).refs.count x) (fun _ _ => Nat.zero_le _)
      (Finset.mem_erase.mpr ⟨hut, Finset.mem_univ u⟩)
  have hone := List.count_pos_iff.mpr ht
  have htwo := List.count_pos_iff.mpr hu
  omega

theorem Fresh.step (h : Fresh s.pool x) (hheld : Held s) (hut : u ≠ t)
    (hkeeps : x ∉ (s.calls t).keeps) (hu : x ∈ (s.calls u).refs) :
    Fresh (s.step policy answers t).pool x := by
  simp only [State.step, State.after]
  cases (s.calls t).act policy answers s.pool with
  | pass hpool => rwa [hpool]
  | claim _ hpool =>
    obtain ⟨p, hterms⟩ := h.1
    rw [hpool]
    apply h.same _ (hooksOf_lend x)
    rw [terms_lend, if_neg (Nat.ne_of_lt (terms_lt hterms))]
  | @run first todo task hcall hstep =>
    rw [hstep]
    cases first.effect s.pool with
    | quiet hquiet hhooks => exact h.same (hquiet.terms x) (hhooks x)
    | @ends id l f hl _ hpool _ _ _ hcause =>
      -- t does not close x, and is not the last to let go of it while u carries it
      have hne : x ≠ id := by
        rintro rfl
        obtain rfl | ⟨rfl, hlast⟩ := hcause
        · exact hkeeps (hcall ▸ List.mem_cons_self)
        · have ht : x ∈ (s.calls t).refs := hcall ▸ List.mem_cons_self
          have hmore := hheld.two hut ht hu
          rw [holdersOf_eq hl] at hmore
          omega
      apply h.same
      · simp only [hpool, terms_update hl, if_neg hne]
      · simp only [hpool, hooksOf_update hl, if_neg hne]
    | releases hs =>
      subst hs
      exact h.same (terms_release _ _ _) (hooksOf_release _ _ _)

theorem since_after_other (hut : u ≠ t) : since u (s.after t o).trace = since u s.trace := by
  cases h : o.note <;> simp [State.after, h, since, hut.symm]

theorem Owned.step_other (h : Owned s u) (hledger : Ledger s) (hheld : Held s) (hut : u ≠ t) :
    Owned (s.step policy answers t) u := by
  have hchange := step_change policy answers s t
  have hfresh (x : LeaseId) (hx : x ∈ s.own u) (hkept : x ∈ (s.calls u).keeps)
      (hfresh : Fresh s.pool x) : Fresh (s.step policy answers t).pool x :=
    hfresh.step hheld hut (h.apart x hx t hut.symm) (h.stage.carried hx hkept)
  rw [State.step] at hchange hfresh ⊢
  generalize ho : (s.calls t).step policy answers s.pool = o at hchange hfresh ⊢
  -- what t keeps or returns it had already kept, or it has claimed it just now
  have hnot (x : LeaseId) (hx : x ∈ s.own u) : x ∉ o.call.keeps ++ o.given := by
    intro hmem
    obtain hkept | ⟨hnew, -⟩ := (s.calls t).keeps_step policy answers s.pool ho hmem
    · exact h.apart x hx t hut.symm hkept
    · exact absurd (hledger.own_known hx) (hnew ▸ Nat.lt_irrefl _)
  apply h.others hchange (Function.update_of_ne hut _ _) (since_after_other hut) hfresh
  · intro x hx hmem
    obtain hgiven | hhand := List.mem_append.mp hmem
    · exact hnot x hx (List.mem_append_right _ hgiven)
    · exact h.inHand x hx hhand
  · intro x hx v hv
    simp only [State.after]
    by_cases hvt : v = t
    · subst hvt
      rw [Function.update_self]
      exact fun hmem => hnot x hx (List.mem_append_left _ hmem)
    · rw [Function.update_of_ne hvt]
      exact h.apart x hx v hv

theorem mem_own_step (ho : call.step policy answers pool = o)
    (hx : x ∈ o.note.toList.filterMap Note.claimed?) : x = pool.nextId := by
  cases ho ▸ call.act policy answers pool with
  | pass _ hnote =>
    obtain hnote | hnote := hnote <;> simp [hnote, Note.claimed?, Note.claim?] at hx
  | claim _ _ hnote => simpa [hnote, Note.claimed?, Note.claim?, eq_comm] using hx
  | @run first todo task hcall hstep =>
    subst hstep
    cases first <;> cases hx

theorem Owned.step_self (h : Owned s t) (hledger : Ledger s) (hheld : Held s)
    (hidle : (s.step policy answers t).calls t ≠ .idle) : Owned (s.step policy answers t) t := by
  rw [State.step] at hidle ⊢
  generalize ho : (s.calls t).step policy answers s.pool = o at hidle ⊢
  obtain ⟨hown, hfreed⟩ := own_after s t ho
  have hcall : (s.after t o).calls t = o.call := Function.update_self _ _ _
  rw [hcall] at hidle
  have hover (x : LeaseId) (hx : x ∈ s.releases) : Over s.pool x := hledger.released x hx
  have hknown (x : LeaseId) (hx : x ∈ s.own t) : x < s.pool.nextId := hledger.own_known hx
  have hgiven : o.given = [] := Call.given_step ho hidle
  have hhands : (s.after t o).hands = s.hands := by simp [State.after, hgiven]
  constructor
  · rw [hown, hfreed, hcall]
    exact h.stage.step h.fate hover ho hidle
  · intro x hx
    rw [hown] at hx
    rw [hcall, releases_after]
    exact Fate.step h.stage h.fate hover hknown ho hidle hx
  · intro x hx hmem
    rw [hown] at hx
    rw [hhands] at hmem
    obtain hnew | hold := List.mem_append.mp hx
    · have hlt := lt_of_holders (hheld.inHand hmem)
      exact Nat.lt_irrefl _ (mem_own_step ho hnew ▸ hlt)
    · exact h.inHand x hold hmem
  · intro x hx u hu
    rw [hown] at hx
    have hsame : (s.after t o).calls u = s.calls u := Function.update_of_ne hu _ _
    rw [hsame]
    obtain hnew | hold := List.mem_append.mp hx
    · intro hmem
      exact Nat.lt_irrefl _ (mem_own_step ho hnew ▸ hheld.known u x hmem)
    · exact h.apart x hold u hu

theorem Owned.begin_self {hands : List LeaseId} (hopens : Opens s.hands call hands) :
    Owned (s.begin t call hands) t := by
  have hsince : since t (s.begin t call hands).trace = [] := by
    simp [State.begin, since]
  have hown : (s.begin t call hands).own t = [] := by rw [State.own, hsince]; rfl
  have hfreed : (s.begin t call hands).freed t = [] := by rw [State.freed, hsince]; rfl
  have hcall : (s.begin t call hands).calls t = call := Function.update_self _ _ _
  constructor
  · rw [hown, hfreed, hcall]
    cases hopens with
    | reserveAny start =>
      exact .scan trivial (List.forall_mem_nil _) .nothing (List.forall_mem_nil _)
    | reserveMany number start =>
      unfold Call.reserveMany
      split <;> exact .scan trivial (List.forall_mem_nil _) .nothing (List.forall_mem_nil _)
    | _ => exact .plain not_false rfl
  · rw [hown]
    exact List.forall_mem_nil _
  · rw [hown]
    exact List.forall_mem_nil _
  · rw [hown]
    exact List.forall_mem_nil _

theorem Owned.begin_other (h : Owned s u) {hands : List LeaseId} (hidle : s.calls t = .idle)
    (hopens : Opens s.hands call hands) (hut : u ≠ t) :
    Owned (s.begin t call hands) u := by
  apply h.others (begin_change hidle hopens) (Function.update_of_ne hut _ _)
  · simp [State.begin, since, hut.symm]
  · intro x _ _ hfresh
    exact hfresh
  · intro x hx hmem
    exact h.inHand x hx (hopens.hands hmem)
  · intro x hx v hv
    simp only [State.begin]
    by_cases hvt : v = t
    · subst hvt
      rw [Function.update_self]
      exact fun hmem => h.inHand x hx (hopens.keeps hmem)
    · rw [Function.update_of_ne hvt]
      exact h.apart x hx v hv

theorem Owned.clone (h : Owned s u) (hid : id ∈ s.hands) : Owned (s.clone id) u := by
  have hquiet : Quiet s.pool (s.pool.retain id) := .retain id
  have hchange : Change s (s.clone id) := .quiet hquiet rfl rfl fun _ _ => Iff.rfl
  apply h.others hchange rfl rfl
  · intro x _ _ hfresh
    exact hfresh.same (hquiet.terms x) (Script.Keeps.retain.hooks x)
  · intro x hx hmem
    obtain rfl | hold := List.mem_cons.mp hmem
    · exact h.inHand x hx hid
    · exact h.inHand x hx hold
  · exact h.apart

theorem hooksOf_addHook {hook : Hook} (hx : x ≠ id) :
    hooksOf (pool.addHook id hook).2 x = hooksOf pool x := by
  cases hl : pool.lease? id with
  | none => rw [Pool.addHook, hl]
  | some l =>
    by_cases hheld : l.state = .held
    · rw [Pool.addHook_held hl hheld, hooksOf_update hl, if_neg hx]
    · rw [Pool.addHook_over hl hheld]

theorem Owned.onClose (h : Owned s u) (hid : id ∈ s.hands) (hook : Hook) :
    Owned (s.onClose id hook) u := by
  have hquiet : Quiet s.pool (s.pool.addHook id hook).2 := .addHook id hook
  have hchange : Change s (s.onClose id hook) := .quiet hquiet rfl rfl fun _ _ => Iff.rfl
  apply h.others hchange rfl rfl _ h.inHand h.apart
  intro x hx _ hfresh
  have hne : x ≠ id := fun heq => h.inHand x hx (heq ▸ hid)
  exact hfresh.same (hquiet.terms x) (hooksOf_addHook hne)

theorem Reachable.owned (h : Reachable policy s) (t : Fin n) (ht : s.calls t ≠ .idle) :
    Owned s t := by
  induction h generalizing t with
  | refl => exact absurd rfl ht
  | @tail s s' hs hmove ih =>
    have hledger : Ledger s := Reachable.ledger hs
    have hheld : Held s := Reachable.held hs
    cases hmove with
    | @begin u call hands hidle hopens =>
      by_cases htu : t = u
      · exact htu ▸ .begin_self hopens
      · have hcall : (s.begin u call hands).calls t = s.calls t := Function.update_of_ne htu _ _
        exact (ih t (hcall ▸ ht)).begin_other hidle hopens htu
    | step u answers =>
      by_cases htu : t = u
      · subst htu
        have hbusy : s.calls t ≠ .idle := by
          intro hidle
          rw [State.step, hidle] at ht
          exact ht (Function.update_self _ _ _)
        exact (ih t hbusy).step_self hledger hheld ht
      · have hcall : (s.step policy answers u).calls t = s.calls t := Function.update_of_ne htu _ _
        exact (ih t (hcall ▸ ht)).step_other hledger hheld htu
    | clone hid => exact (ih t ht).clone hid
    | onClose hid hook => exact (ih t ht).onClose hid hook

end PortLease.Threads
