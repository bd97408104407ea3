import CycloneCache.Ref.RamCalls

namespace CycloneCache.Ref.Ram

open Lib

def Pc.holdsNothing : Pc → Bool
  | .planning _ _ => false
  | .allocating _ => false
  | .storing _ _ => false
  | .altServe _ _ .pred => false
  | .altServe _ _ .insert => false
  | _ => true

def seenAt (o : Nat) (x : AltDoc) : Seen := ⟨o, x.alternateId, x.body⟩

inductive Glance (cfg : Config) (s : State) (t : Nat) : Act → Pc → Pc → Prop
  | fail (a : Act) (pc : Pc) (h : pc.holdsNothing = true) : Glance cfg s t a pc (.idle none)
  | readMiss (f : Start) (hl : s.ramLock = none) (h : s.ram kOriginal = none) :
      Glance cfg s t (.step t) (.readGet f) (.readProbe f)
  | readCopy (f : Start) (c : Copy) (hl : s.ramLock = none) (h : s.ram kOriginal = some c) :
      Glance cfg s t (.step t) (.readGet f) (.readStamp f c)
  | readStale (f : Start) (c : Copy) : Glance cfg s t (.step t) (.readStamp f c) (.readDrop f)
  | readHead (f : Start) (o : Nat) (hv : s.disk.version % 2 = 0) (h : s.disk.entry = some o) :
      Glance cfg s t (.step t) (.readProbe f) (.readDisk f o)
  | epoch (f : Start) : Glance cfg s t (.step t) (.altEpoch f) (.altVersion f s.disk.removeEpoch)
  | version (f : Start) (e : Nat) :
      Glance cfg s t (.step t) (.altVersion f e) (.altProbe ⟨f, e, s.disk.version⟩)
  | head (r : Sample) (o : Nat) (hv : s.disk.version % 2 = 0) (h : s.disk.entry = some o) :
      Glance cfg s t (.step t) (.altProbe r) (.altWalk r [] o)
  | next (r : Sample) (nodes : List Seen) (o : Nat) (x : AltDoc) (hx : s.disk.docs o = some x)
      (hn : x.nextAlternateOffset ≠ 0) :
      Glance cfg s t (.step t) (.altWalk r nodes o)
        (.altWalk r (nodes ++ [seenAt o x]) x.nextAlternateOffset)
  | last (r : Sample) (nodes : List Seen) (o : Nat) (x : AltDoc) (hx : s.disk.docs o = some x) :
      Glance cfg s t (.step t) (.altWalk r nodes o) (.altSelect r (nodes ++ [seenAt o x]))
  | cut (a : Act) (r : Sample) (nodes : List Seen) (o : Nat) :
      Glance cfg s t a (.altWalk r nodes o) (.altSelect r nodes)
  | pick (r : Sample) (nodes : List Seen) (i : Nat) (n : Seen) (hn : nodes[i]? = some n) :
      Glance cfg s t (.select t (some i)) (.altSelect r nodes)
        (.altServe r n (if useRamCache cfg n then .get else .disk))
  | miss (r : Sample) (n : Seen) (hl : s.ramLock = none) (h : s.ram n.id = none) :
      Glance cfg s t (.step t) (.altServe r n .get) (.altServe r n .disk)
  | copy (r : Sample) (n : Seen) (c : Copy) (hl : s.ramLock = none) (h : s.ram n.id = some c) :
      Glance cfg s t (.step t) (.altServe r n .get) (.altServe r n (.stamp c))
  | stale (r : Sample) (n : Seen) (c : Copy) :
      Glance cfg s t (.step t) (.altServe r n (.stamp c)) (.altServe r n .drop)
  | loaded (r : Sample) (n : Seen) (h : useRamCache cfg n = true) :
      Glance cfg s t (.step t) (.altServe r n .disk) (.altServe r n .copy)
  | offer (r : Sample) (n : Seen) (h : s.disk.removeEpoch = r.epoch) :
      Glance cfg s t (.step t) (.altServe r n .copy) (.altServe r n .put)
  | accept (r : Sample) (n : Seen) (hv : r.version % 2 = 0)
      (h : s.disk.version % 2 ^ 32 = r.version % 2 ^ 32) :
      Glance cfg s t (.step t) (.altServe r n .pred) (.altServe r n .insert)
  | undo (r : Sample) (n : Seen) :
      Glance cfg s t (.step t) (.altServe r n .recheck) (.altServe r n .undo)

inductive Serves (cfg : Config) (s : State) : Pc → Answer → Prop
  | readHit (f : Start) (c : Copy) (hl : s.ramLock = none) (h : s.ram kOriginal = some c) :
      Serves cfg s (.readGet f) ⟨false, kOriginal, c.body, f⟩
  | readStamp (f : Start) (c : Copy) : Serves cfg s (.readStamp f c) ⟨false, kOriginal, c.body, f⟩
  | readDisk (f : Start) (o : Nat) (x : AltDoc) (h : s.disk.docs o = some x) :
      Serves cfg s (.readDisk f o) ⟨false, x.alternateId, x.body, f⟩
  | hit (r : Sample) (n : Seen) (c : Copy) (hl : s.ramLock = none) (h : s.ram n.id = some c) :
      Serves cfg s (.altServe r n .get) ⟨true, n.id, c.body, r.start⟩
  | stamp (r : Sample) (n : Seen) (c : Copy) :
      Serves cfg s (.altServe r n (.stamp c)) ⟨true, n.id, c.body, r.start⟩
  | loaded (r : Sample) (n : Seen) (stage : Stage)
      (h : stage = .disk ∨ stage = .copy ∨ stage = .put ∨ stage = .recheck) :
      Serves cfg s (.altServe r n stage) ⟨true, n.id, n.body, r.start⟩

inductive Starts (cfg : Config) (s : State) (t : Nat) : Pc → Program → Prop
  | remove (p : Program) (hm : s.mutex = none) (h : removeProgram cfg s.disk = some p) :
      Starts cfg s t (.waiting .remove) p
  | removeAlternate (id : Nat) (p : Program) (hm : s.mutex = none)
      (h : removeAlternateProgram cfg s.disk id = some p) :
      Starts cfg s t (.waiting (.removeAlternate id)) p
  | flushed (len pass : Nat) (hm : s.mutex = none) :
      Starts cfg s t (.flushing len pass) (writeProgram cfg s.disk len)
  | write (len : Nat) : Starts cfg s t (.allocating (.write len)) (writeProgram cfg s.disk len)
  | alternate (id len : Nat) (plan : WritePlan) (dropped : Bool) (pass : Nat)
      (h : plan.retained ∨ s.disk.pass = pass) :
      Starts cfg s t (.allocating (.alternate id len plan dropped pass))
        (writeAlternateProgram cfg s.disk id len plan dropped)
  | other (shared evicts : Bool) :
      Starts cfg s t (.allocating (.other shared evicts)) (otherProgram cfg shared evicts)

inductive Prepares (cfg : Config) (s : State) (t : Nat) : Pc → Option Nat → Pc → Prop
  | write (len : Nat) (hm : s.mutex = none) (hlen : kHeaderSize ≤ len) :
      Prepares cfg s t (.waiting (.write len)) (some t) (.allocating (.write len))
  | writeAlternate (id len : Nat) (hm : s.mutex = none) (hlen : kHeaderSize ≤ len) :
      Prepares cfg s t (.waiting (.writeAlternate id len)) (some t) (.planning id len)
  | other (shared evicts : Bool) (hm : s.mutex = none) :
      Prepares cfg s t (.waiting (.other shared evicts)) (some t)
        (.allocating (.other shared evicts))
  | planned (id len : Nat) (keep : Nat → Bool) (plan : WritePlan) (dropped : Bool)
      (h : planAlternate cfg s.disk id keep = .ok (plan, dropped)) :
      Prepares cfg s t (.planning id len) s.mutex
        (.allocating (.alternate id len plan dropped s.disk.pass))
  | replan (id len : Nat) (plan : WritePlan) (dropped : Bool) (pass : Nat) :
      Prepares cfg s t (.allocating (.alternate id len plan dropped pass)) s.mutex
        (.planning id len)
  | flush (len : Nat) : Prepares cfg s t (.allocating (.write len)) none (.flushing len s.disk.pass)
  | leavePlan (id len : Nat) : Prepares cfg s t (.planning id len) none (.idle none)
  | leaveSpace (a : Alloc) : Prepares cfg s t (.allocating a) none (.idle none)
  | start (pc : Pc) (p : Program) (h : Starts cfg s t pc p) :
      Prepares cfg s t pc (some t) (.storing p.stores p.out)

inductive Move (cfg : Config) (s : State) : Act → State → Prop
  | call (t : Nat) (c : Call) (result : Option Answer) (hpc : s.pcs t = .idle result) :
      Move cfg s (.call t c) (s.setPc t (beginCall cfg s c))
  | glance (t : Nat) (a : Act) (pc pc' : Pc) (hpc : s.pcs t = pc)
      (h : Glance cfg s t a pc pc') : Move cfg s a (s.setPc t pc')
  | serve (t : Nat) (pc : Pc) (ans : Answer) (hpc : s.pcs t = pc) (h : Serves cfg s pc ans) :
      Move cfg s (.step t) (s.answer t ans)
  | readDrop (t : Nat) (f : Start) (hpc : s.pcs t = .readDrop f) (hl : s.ramLock = none) :
      Move cfg s (.step t) ((s.dropCopy kOriginal).setPc t (.readProbe f))
  | drop (t : Nat) (r : Sample) (n : Seen) (hpc : s.pcs t = .altServe r n .drop)
      (hl : s.ramLock = none) :
      Move cfg s (.step t) ((s.dropCopy n.id).setPc t (.altServe r n .disk))
  | undo (t : Nat) (r : Sample) (n : Seen) (hpc : s.pcs t = .altServe r n .undo)
      (hl : s.ramLock = none) :
      Move cfg s (.step t) ((s.dropCopy n.id).answer t ⟨true, n.id, n.body, r.start⟩)
  | lock (t : Nat) (r : Sample) (n : Seen) (hpc : s.pcs t = .altServe r n .put)
      (hl : s.ramLock = none) (he : s.disk.removeEpoch = r.epoch) :
      Move cfg s (.step t) ({ s with ramLock := some t }.setPc t (.altServe r n .pred))
  | refuse (t : Nat) (a : Act) (r : Sample) (n : Seen)
      (hpc : s.pcs t = .altServe r n .pred ∨ s.pcs t = .altServe r n .insert) :
      Move cfg s a ({ s with ramLock := none }.answer t ⟨true, n.id, n.body, r.start⟩)
  | insert (t : Nat) (r : Sample) (n : Seen) (hpc : s.pcs t = .altServe r n .insert) :
      Move cfg s (.insert t true) (insertStep s t r n true)
  | prepare (t : Nat) (a : Act) (m : Option Nat) (pc pc' : Pc) (hpc : s.pcs t = pc)
      (h : Prepares cfg s t pc m pc') : Move cfg s a ({ s with mutex := m }.setPc t pc')
  | wrap (t : Nat) (a : Alloc) (hpc : s.pcs t = .allocating a) :
      Move cfg s (.wrap t) { s with disk := s.disk.wrap cfg }
  | advance (t : Nat) (o : Nat) (a : Alloc) (hpc : s.pcs t = .allocating a) :
      Move cfg s (.advance t o) { s with disk := s.disk.advance o }
  | store (t : Nat) (st : Store) (todo : List Store) (out : Outcome)
      (hpc : s.pcs t = .storing (st :: todo) out)
      (hst : (∀ target, st ≠ .evict target) ∧ st ≠ .bumpEpoch) :
      Move cfg s (.step t) ({ s with disk := s.disk.exec st }.setPc t (.storing todo out))
  | bump (t : Nat) (todo : List Store) (out : Outcome)
      (hpc : s.pcs t = .storing (.bumpEpoch :: todo) out) :
      Move cfg s (.step t) ({ s with
        disk := s.disk.exec .bumpEpoch
        mark := out.bound s.mark
        rebased := out.rewritten.getD s.rebased }.setPc t (.storing todo out))
  | evict (t : Nat) (target : Option Nat) (todo : List Store) (out : Outcome)
      (hpc : s.pcs t = .storing (.evict target :: todo) out) (hl : s.ramLock = none) :
      Move cfg s (.step t) ({ s with ram := evictCopies target s.ram }.setPc t (.storing todo out))
  | finish (t : Nat) (out : Outcome) (hpc : s.pcs t = .storing [] out) :
      Move cfg s (.step t) (finish s t out)
  | ramEvict (id : Nat) : Move cfg s (.ramEvict id) (s.dropCopy id)

section

variable {cfg : Config} {s s' : State} {t : Nat}

theorem beginCall_cases (cfg : Config) (s : State) (c : Call) :
    beginCall cfg s c = .readGet s.begins ∨ beginCall cfg s c = .readProbe s.begins ∨
      beginCall cfg s c = .altEpoch s.begins ∨ beginCall cfg s c = .waiting c := by
  cases c with
  | read =>
    simp only [beginCall]
    split
    · exact .inl rfl
    · exact .inr (.inl rfl)
  | readAlternate => exact .inr (.inr (.inl rfl))
  | _ => exact .inr (.inr (.inr rfl))

theorem move_fail {a : Act} {pc : Pc} (hpc : s.pcs t = pc) (h : pc.holdsNothing = true) :
    Move cfg s a (s.setPc t (.idle none)) :=
  .glance t a pc _ hpc (.fail a pc h)

theorem readStep_move {pc : Pc} (hpc : s.pcs t = pc) :
    Yields (readStep cfg s t pc) (Move cfg s (.step t)) := by
  unfold readStep
  split
  · next f =>
    refine .guard fun hl => ?_
    split
    · next hram => exact .some (.glance t _ _ _ hpc (.readMiss f hl hram))
    · next c hram =>
      refine .ite (fun _ => .some ?_) fun _ => .some ?_
      · exact .glance t _ _ _ hpc (.readCopy f c hl hram)
      · exact .serve t _ _ hpc (.readHit f c hl hram)
  · next f c =>
    refine .ite (fun _ => .some ?_) fun _ => .some ?_
    · exact .serve t _ _ hpc (.readStamp f c)
    · exact .glance t _ _ _ hpc (.readStale f c)
  · next f => exact .guard fun hl => .some (.readDrop t f hpc hl)
  · next f =>
    refine .guard fun hv => ?_
    split
    · exact .some (move_fail hpc rfl)
    · next o he => exact .some (.glance t _ _ _ hpc (.readHead f o hv he))
  · next f o =>
    split
    · exact .some (move_fail hpc rfl)
    · next x hx =>
      refine .ite (fun _ => .some ?_) fun _ => .some (move_fail hpc rfl)
      exact .serve t _ _ hpc (.readDisk f o x hx)
  · exact .none

theorem altStep_move {pc : Pc} (hpc : s.pcs t = pc) :
    Yields (altStep s t pc) (Move cfg s (.step t)) := by
  unfold altStep
  split
  · next f => exact .some (.glance t _ _ _ hpc (.epoch f))
  · next f e => exact .some (.glance t _ _ _ hpc (.version f e))
  · next r =>
    refine .guard fun hv => ?_
    split
    · exact .some (move_fail hpc rfl)
    · next o he => exact .some (.glance t _ _ _ hpc (.head r o hv he))
  · next r nodes o =>
    refine .some ?_
    unfold walkStep
    split
    · exact .glance t _ _ _ hpc (.cut _ r nodes o)
    · next x hx =>
      split
      · exact .glance t _ _ _ hpc (.last r nodes o x hx)
      · next hn =>
        exact .glance t _ _ _ hpc (.next r nodes o x hx fun h0 => hn (.inl h0))
  · exact .none

theorem serveStep_move {r : Sample} {n : Seen} {stage : Stage} (hpc : s.pcs t = .altServe r n stage) :
    Yields (serveStep cfg s t r n stage) (Move cfg s (.step t)) := by
  cases stage with
  | get =>
    refine .guard fun hl => ?_
    split
    · next hram => exact .some (.glance t _ _ _ hpc (.miss r n hl hram))
    · next c hram =>
      refine .ite (fun _ => .some ?_) fun _ => .some ?_
      · exact .glance t _ _ _ hpc (.copy r n c hl hram)
      · exact .serve t _ _ hpc (.hit r n c hl hram)
  | stamp c =>
    refine .ite (fun _ => .some ?_) fun _ => .some ?_
    · exact .serve t _ _ hpc (.stamp r n c)
    · exact .glance t _ _ _ hpc (.stale r n c)
  | drop => exact .guard fun hl => .some (.drop t r n hpc hl)
  | disk =>
    refine .ite (fun _ => .ite (fun hu => .some ?_) fun _ => .some ?_)
      fun _ => .some (move_fail hpc rfl)
    · exact .glance t _ _ _ hpc (.loaded r n hu)
    · exact .serve t _ _ hpc (.loaded r n _ (.inl rfl))
  | copy =>
    refine .ite (fun hc => .some ?_) fun _ => .some ?_
    · exact .glance t _ _ _ hpc (.offer r n hc.2)
    · exact .serve t _ _ hpc (.loaded r n _ (.inr (.inl rfl)))
  | put =>
    refine .guard fun hl => .ite (fun he => .some (.lock t r n hpc hl he)) fun _ => .some ?_
    exact .serve t _ _ hpc (.loaded r n _ (.inr (.inr (.inl rfl))))
  | pred =>
    refine .ite (fun _ => .some (.refuse t _ r n (.inl hpc))) fun hsame => .some ?_
    rw [not_or] at hsame
    have hv : s.disk.version % 2 ^ 32 = r.version % 2 ^ 32 := by
      simpa [sameVersion] using hsame.2
    exact .glance t _ _ _ hpc (.accept r n (by omega) hv)
  | insert => exact .none
  | recheck =>
    refine .ite (fun _ => .some ?_) fun _ => .some ?_
    · exact .serve t _ _ hpc (.loaded r n _ (.inr (.inr (.inr rfl))))
    · exact .glance t _ _ _ hpc (.undo r n)
  | undo => exact .guard fun hl => .some (.undo t r n hpc hl)

theorem enter_move {c : Call} (hpc : s.pcs t = .waiting c) (hm : s.mutex = none) :
    Yields (enter cfg s t c) (Move cfg s (.step t)) := by
  cases c with
  | read | readAlternate => exact .none
  | write len =>
    refine .ite (fun hlen => .some ?_) fun _ => .some (move_fail hpc rfl)
    exact .prepare t _ _ _ _ hpc (.write len hm hlen)
  | writeAlternate id len =>
    refine .ite (fun hlen => .some ?_) fun _ => .some (move_fail hpc rfl)
    exact .prepare t _ _ _ _ hpc (.writeAlternate id len hm hlen)
  | remove =>
    simp only [enter]
    split
    · exact .some (move_fail hpc rfl)
    · next p hp => exact .some (.prepare t _ _ _ _ hpc (.start _ p (.remove p hm hp)))
  | removeAlternate id =>
    simp only [enter]
    split
    · exact .some (move_fail hpc rfl)
    · next p hp => exact .some (.prepare t _ _ _ _ hpc (.start _ p (.removeAlternate id p hm hp)))
  | other shared evicts => exact .some (.prepare t _ _ _ _ hpc (.other shared evicts hm))

theorem allocated_move {al : Alloc} (hpc : s.pcs t = .allocating al) :
    Move cfg s (.step t) (allocated cfg s t al) := by
  unfold allocated
  split
  · next len =>
    split
    · exact .prepare t _ _ _ _ hpc (.flush len)
    · exact .prepare t _ _ _ _ hpc (.start _ _ (.write len))
  · next id len plan dropped pass =>
    split
    · next hp => exact .prepare t _ _ _ _ hpc (.start _ _ (.alternate id len plan dropped pass hp))
    · exact .prepare t _ _ _ _ hpc (.replan id len plan dropped pass)
  · next shared evicts => exact .prepare t _ _ _ _ hpc (.start _ _ (.other shared evicts))

theorem storeStep_move {st : Store} {todo : List Store} {out : Outcome}
    (hpc : s.pcs t = .storing (st :: todo) out) :
    Yields (storeStep s t st todo out) (Move cfg s (.step t)) := by
  unfold storeStep
  split
  · next target => exact .guard fun hl => .some (.evict t target todo out hpc hl)
  · exact .some (.bump t todo out hpc)
  · next hne hnb => exact .some (.store t st todo out hpc ⟨fun target => hne target, hnb⟩)

theorem writeStep_move {pc : Pc} (hpc : s.pcs t = pc) :
    Yields (writeStep cfg s t pc) (Move cfg s (.step t)) := by
  unfold writeStep
  split
  · exact .guard fun hm => enter_move hpc hm
  · exact .some (allocated_move hpc)
  · next len pass =>
    refine .guard fun hm => .ite (fun _ => .some ?_) fun _ => .some (move_fail hpc rfl)
    exact .prepare t _ _ _ _ hpc (.start _ _ (.flushed len pass hm))
  · next out => exact .some (.finish t out hpc)
  · exact storeStep_move hpc
  · exact .none

theorem giveUpStep_move : Yields (giveUpStep s t) (Move cfg s (.giveUp t)) := by
  unfold giveUpStep
  split
  · exact .none
  · exact .none
  · exact .none
  · exact .none
  · next id len hpc => exact .some (.prepare t _ _ _ _ hpc (.leavePlan id len))
  · next a hpc => exact .some (.prepare t _ _ _ _ hpc (.leaveSpace a))
  · next hi hs hp hn hpl hal =>
    refine .some (move_fail rfl ?_)
    cases hpc : s.pcs t with
    | planning id len => exact absurd hpc (hpl id len)
    | allocating a => exact absurd hpc (hal a)
    | storing todo out => exact absurd hpc (hs todo out)
    | altServe r n stage =>
      cases stage with
      | pred => exact absurd hpc (hp r n)
      | insert => exact absurd hpc (hn r n)
      | _ => rfl
    | _ => rfl

theorem threadStep_move : Yields (threadStep cfg s t) (Move cfg s (.step t)) := by
  unfold threadStep
  split
  · next r n stage hpc => exact serveStep_move hpc
  · next c hpc => exact writeStep_move hpc
  · next a hpc => exact writeStep_move hpc
  · next len pass hpc => exact writeStep_move hpc
  · next todo out hpc => exact writeStep_move hpc
  · next f hpc => exact altStep_move hpc
  · next f e hpc => exact altStep_move hpc
  · next r hpc => exact altStep_move hpc
  · next r nodes o hpc => exact altStep_move hpc
  · exact readStep_move rfl

theorem step_yields (a : Act) : Yields (step cfg s a) (Move cfg s a) := by
  cases a with simp only [step]
  | call t c =>
    split
    · next result hpc => exact .some (.call t c result hpc)
    · exact .none
  | step t => exact threadStep_move
  | cut t =>
    split
    · next r nodes o hpc => exact .some (.glance t _ _ _ hpc (.cut _ r nodes o))
    · exact .none
  | select t i =>
    split
    · next r nodes hpc =>
      unfold selectStep
      split
      · exact .some (move_fail hpc rfl)
      · next i =>
        split
        · exact .none
        · next n hn => exact .some (.glance t _ _ _ hpc (.pick r nodes i n hn))
    · exact .none
  | insert t admitted =>
    split
    · next r n hpc =>
      cases admitted with
      | true => exact .some (.insert t r n hpc)
      | false => exact .some (.refuse t _ r n (.inr hpc))
    · exact .none
  | plan t keep =>
    split
    · next id len hpc =>
      refine .some ?_
      unfold planStep
      split
      · exact .prepare t _ _ _ _ hpc (.leavePlan id len)
      · next plan dropped hp =>
        exact .prepare t _ _ _ _ hpc (.planned id len keep plan dropped hp)
    · exact .none
  | wrap t =>
    split
    · next al hpc => exact .some (.wrap t al hpc)
    · exact .none
  | advance t o =>
    split
    · next al hpc => exact .some (.advance t o al hpc)
    · exact .none
  | giveUp t => exact giveUpStep_move
  | ramEvict id => exact .some (.ramEvict id)

theorem step_move {a : Act} (h : step cfg s a = some s') : Move cfg s a s' := step_yields a s' h

end

end CycloneCache.Ref.Ram
