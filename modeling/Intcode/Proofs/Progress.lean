import Mathlib.Algebra.Order.BigOperators.Group.Finset
import Intcode.Proofs.Effects

/-!
# Intcode.Proofs.Progress

How long a run of a pipeline goes on.

A pass that is not the last one has completed an instruction, since a run ends with a pass that has
not. So a run makes at most one pass more than instructions are completed in it, and where only so
many can be completed it comes to an end.

* `Network.InTurn`               : machines are on in turn, and complete so many instructions.
* `Network.InTurn.le_of_at_rest` : no more are completed than on the way to where all are at rest.
* `Pipeline.passes_of_runFrom`   : the passes of a run, one by one.
* `Pipeline.returns_of_bounded`  : a run ends where only so many instructions can be completed.
* `Pipeline.run_progresses`      : every pass but the last one makes progress.
-/

namespace Intcode
namespace Network

/-- The machines are on in turn, over and over. A machine that is on completes instructions until
it rests without a fault; then the next one is on. From machine `i` on, with as many completed
instructions as are told, it comes to be the turn of machine `j`. -/
inductive InTurn : Network → Nat → Nat → Network → Nat → Prop where
  | refl {net : Network} {i : Nat} : InTurn net i 0 net i
  | completes {net net' : Network} {i j n : Nat} {m m' : Machine} {t : Tapes} :
      net.machine? i = some m → m.turn net.tapes = (t, m', .completed) →
      InTurn { tapes := t, machines := net.machines.set i m' } i n net' j →
      InTurn net i (n + 1) net' j
  | rests {net net' : Network} {i j n : Nat} {m m' : Machine} {t : Tapes} {reason : HaltReason} :
      net.machine? i = some m → m.turn net.tapes = (t, m', .rested (.ok reason)) →
      InTurn { tapes := t, machines := net.machines.set i m' } (i + 1) n net' j →
      InTurn net i n net' j
  | again {net net' : Network} {i j n : Nat} :
      net.size ≤ i → InTurn net 0 n net' j → InTurn net i n net' j

namespace InTurn

theorem trans {a b c : Network} {i j k n n' : Nat} (h : a.InTurn i n b j)
    (h' : b.InTurn j n' c k) : a.InTurn i (n + n') c k := by
  induction h with
  | refl => rwa [Nat.zero_add]
  | completes hm ht _ ih =>
    rw [Nat.add_right_comm]
    exact .completes hm ht (ih h')
  | rests hm ht _ ih => exact .rests hm ht (ih h')
  | again hi _ ih => exact .again hi (ih h')

end InTurn

/-! ## Executions -/

/-- A machine that is executed is on until it rests. -/
theorem inTurn_of_execute {fuel : Nat} {net : Network} {i : Nat} {t : Tapes} {m m' : Machine}
    {reason : HaltReason} (hm : net.machine? i = some m)
    (hx : m.execute fuel net.tapes = some (t, m', .ok reason)) :
    ∃ n, m'.steps = m.steps + n ∧
      net.InTurn i n { tapes := t, machines := net.machines.set i m' } (i + 1) := by
  induction fuel generalizing net m with
  | zero => cases hx
  | succ fuel ih =>
    obtain ⟨⟨t₁, m₁, _ | r⟩, ht⟩ : ∃ next, m.turn net.tapes = next := ⟨_, rfl⟩
    · rw [Machine.execute, ht] at hx
      obtain ⟨n, hs, h⟩ := ih (machine?_set hm t₁ m₁) hx
      obtain ⟨width, action, -, -, rfl⟩ := Machine.turn_completed_iff.1 ht
      have hsteps := Machine.act_steps m width action
      simp only [List.set_set] at h
      exact ⟨n + 1, by omega, .completes hm ht h⟩
    · rw [Machine.execute, ht] at hx
      cases hx
      have hsteps : m'.steps = m.steps := by rw [(Machine.turn_rested ht).2]
      exact ⟨0, hsteps, .rests hm ht .refl⟩

/-- A machine that does not come to rest completes any number of instructions. -/
theorem inTurn_of_execute_eq_none {fuel : Nat} {net : Network} {i : Nat} {m : Machine}
    (hm : net.machine? i = some m) (hx : m.execute fuel net.tapes = none) :
    ∃ net', net.InTurn i fuel net' i := by
  induction fuel generalizing net m with
  | zero => exact ⟨net, .refl⟩
  | succ fuel ih =>
    obtain ⟨⟨t₁, m₁, _ | r⟩, ht⟩ : ∃ next, m.turn net.tapes = next := ⟨_, rfl⟩
    · rw [Machine.execute, ht] at hx
      obtain ⟨net', h⟩ := ih (machine?_set hm t₁ m₁) hx
      exact ⟨net', .completes hm ht h⟩
    · rw [Machine.execute, ht] at hx
      cases hx

/-! ## Passes -/

/-- In a pass over the machines behind those in `done`, each of them is on once. -/
theorem inTurn_of_passFrom {fuel index : Nat} {t t' : Tapes} {ms ms' : List Machine}
    {reasons : List HaltReason} (done : List Machine)
    (h : passFrom fuel index t ms = some (t', ms', .ok reasons)) :
    ∃ n, totalSteps { tapes := t', machines := ms' } =
        totalSteps { tapes := t, machines := ms } + n ∧
      InTurn { tapes := t, machines := done ++ ms } done.length n
        { tapes := t', machines := done ++ ms' } (done ++ ms').length := by
  induction ms generalizing index t ms' reasons done with
  | nil =>
    cases h
    exact ⟨0, rfl, by simpa using InTurn.refl⟩
  | cons m rest ih =>
    obtain ⟨t₁, m₁, reason, rest₁, reasons₁, hx, hp, rfl, rfl⟩ := passFrom_cons_ok h
    have hm : machine? { tapes := t, machines := done ++ m :: rest } done.length = some m := by
      simp [machine?]
    have hset : (done ++ m :: rest).set done.length m₁ = done ++ m₁ :: rest := by simp
    obtain ⟨n, hs, hfirst⟩ := inTurn_of_execute hm hx
    obtain ⟨n', hs', hrest⟩ := ih (done ++ [m₁]) hp
    rw [hset] at hfirst
    rw [List.append_assoc, List.append_assoc, List.length_append] at hrest
    refine ⟨n + n', ?_, hfirst.trans hrest⟩
    rw [totalSteps_cons, totalSteps_cons, hs]
    have hsum : totalSteps { tapes := t', machines := rest₁ } =
        totalSteps { tapes := t, machines := rest } + n' := hs'
    omega

theorem inTurn_of_pass {fuel : Nat} {net net' : Network} {reasons : List HaltReason}
    (h : net.pass fuel = some (net', .ok reasons)) :
    ∃ n, net'.totalSteps = net.totalSteps + n ∧ net.InTurn 0 n net' 0 := by
  obtain ⟨n, hs, hp⟩ := inTurn_of_passFrom [] (pass_eq_some_iff.1 h)
  exact ⟨n, hs, hp.trans (.again (Nat.le_refl _) .refl)⟩

/-- Where fewer instructions can be completed than there is fuel, a pass comes to its end. -/
theorem exists_passFrom_of_bounded {fuel : Nat} {t : Tapes} {ms : List Machine} (index : Nat)
    (done : List Machine)
    (h : ∀ n net' j, InTurn { tapes := t, machines := done ++ ms } done.length n net' j →
      n < fuel) :
    ∃ out, passFrom fuel index t ms = some out := by
  induction ms generalizing index t done with
  | nil => exact ⟨_, rfl⟩
  | cons m rest ih =>
    have hm : machine? { tapes := t, machines := done ++ m :: rest } done.length = some m := by
      simp [machine?]
    have hset (m₁ : Machine) :
        (done ++ m :: rest).set done.length m₁ = done ++ [m₁] ++ rest := by simp
    rw [passFrom]
    cases hx : m.execute fuel t with
    | none =>
      obtain ⟨net', hall⟩ := inTurn_of_execute_eq_none hm hx
      exact absurd (h _ _ _ hall) (Nat.lt_irrefl fuel)
    | some out =>
      obtain ⟨t₁, m₁, e | reason⟩ := out
      · exact ⟨_, rfl⟩
      · obtain ⟨n, -, hfirst⟩ := inTurn_of_execute hm hx
        rw [hset] at hfirst
        obtain ⟨⟨t₂, rest₁, reasons⟩, hrest⟩ := ih (index + 1) (done ++ [m₁]) (by
          intro n' net' j hn
          rw [List.length_append] at hn
          exact Nat.lt_of_le_of_lt (Nat.le_add_left n' n) (h _ _ _ (hfirst.trans hn)))
        exact ⟨(t₂, m₁ :: rest₁, reasons.map (reason :: ·)), by simp [hrest]⟩

theorem exists_pass_of_bounded {fuel : Nat} {net : Network}
    (h : ∀ n net' j, net.InTurn 0 n net' j → n < fuel) : ∃ out, net.pass fuel = some out := by
  obtain ⟨⟨t, ms, reasons⟩, hp⟩ := exists_passFrom_of_bounded 0 [] h
  exact ⟨({ tapes := t, machines := ms }, reasons), pass_eq_some_iff.2 hp⟩

/-! ## Networks at rest -/

/-- At rest nothing is completed, whoever's turn it is. -/
theorem InTurn.eq_of_at_rest {net net' : Network} {i j n : Nat} (h : net.InTurn i n net' j)
    (hrest : net.AtRest) : n = 0 := by
  induction h with
  | refl => rfl
  | completes hm ht _ _ =>
    rw [(hrest _ (List.mem_of_getElem? hm)).turn] at ht
    cases ht
  | rests hm ht _ ih =>
    rw [(hrest _ (List.mem_of_getElem? hm)).turn] at ht
    cases ht
    rw [set_self hm] at ih
    exact ih hrest
  | again _ _ ih => exact ih hrest

/-- No more instructions can be completed than on the way to where all machines are at rest. -/
theorem InTurn.le_of_at_rest {net net' : Network} {i j n : Nat} (h : net.InTurn i n net' j)
    (hrest : net'.AtRest) {k : Nat} {net₁ : Network} {l : Nat} (h' : net.InTurn i k net₁ l) :
    k ≤ n := by
  induction h generalizing k with
  | refl => exact Nat.le_of_eq (h'.eq_of_at_rest hrest)
  | completes hm ht _ ih =>
    cases h' with
    | refl => exact Nat.zero_le _
    | completes hm' ht' h' =>
      cases hm.symm.trans hm'
      cases ht.symm.trans ht'
      exact Nat.succ_le_succ (ih hrest h')
    | rests hm' ht' _ =>
      cases hm.symm.trans hm'
      cases ht.symm.trans ht'
    | again hi _ => exact absurd (List.getElem?_eq_some_iff.1 hm).1 (Nat.not_lt.2 hi)
  | rests hm ht _ ih =>
    cases h' with
    | refl => exact Nat.zero_le _
    | completes hm' ht' _ =>
      cases hm.symm.trans hm'
      cases ht.symm.trans ht'
    | rests hm' ht' h' =>
      cases hm.symm.trans hm'
      cases ht.symm.trans ht'
      exact ih hrest h'
    | again hi _ => exact absurd (List.getElem?_eq_some_iff.1 hm).1 (Nat.not_lt.2 hi)
  | again hi _ ih =>
    cases h' with
    | refl => exact Nat.zero_le _
    | completes hm' _ _ => exact absurd (List.getElem?_eq_some_iff.1 hm').1 (Nat.not_lt.2 hi)
    | rests hm' _ _ => exact absurd (List.getElem?_eq_some_iff.1 hm').1 (Nat.not_lt.2 hi)
    | again _ h' => exact ih hrest h'

end Network

/-! ## Runs -/

theorem HaltReason.waiting_mem_of_waitingFrom {first : Nat} {reasons : List HaltReason}
    (h : waitingFrom first reasons ≠ []) : .waitingForInput ∈ reasons := by
  obtain ⟨i, hi⟩ := List.exists_mem_of_ne_nil _ h
  obtain ⟨j, hj, -⟩ := mem_waitingFrom_iff.1 hi
  exact List.mem_of_getElem? hj

namespace Pipeline

open Network

/-- The first passes from a network on: what the network is between them, how many instructions are
completed in each, and why the machines rest at its end. After all of them but the last one, some
instruction was completed and some machine was left waiting. -/
structure Passes (fuel count : Nat) (nets : Nat → Network) (completed : Nat → Nat)
    (reasons : Nat → List HaltReason) : Prop where
  pass : ∀ k < count, (nets k).pass fuel = some (nets (k + 1), .ok (reasons k))
  inTurn : ∀ k < count, (nets k).InTurn 0 (completed k) (nets (k + 1)) 0
  steps : ∀ k < count, (nets (k + 1)).totalSteps = (nets k).totalSteps + completed k
  goesOn : ∀ k, k + 1 < count → 0 < completed k ∧ .waitingForInput ∈ reasons k

/-- The sequence with one member more, in front of the others. -/
def inFront {α : Type} (a : α) (f : Nat → α) : Nat → α
  | 0 => a
  | k + 1 => f k

namespace Passes

variable {fuel count : Nat} {nets : Nat → Network} {completed : Nat → Nat}
  {reasons : Nat → List HaltReason}

theorem none (fuel : Nat) (nets : Nat → Network) (completed : Nat → Nat)
    (reasons : Nat → List HaltReason) : Passes fuel 0 nets completed reasons :=
  ⟨by simp, by simp, by simp, by simp⟩

/-- One pass more, before the others. -/
theorem cons (h : Passes fuel count nets completed reasons) {net : Network} {n : Nat}
    {first : List HaltReason} (hp : net.pass fuel = some (nets 0, .ok first))
    (ht : net.InTurn 0 n (nets 0) 0) (hs : (nets 0).totalSteps = net.totalSteps + n)
    (hg : 0 < count → 0 < n ∧ .waitingForInput ∈ first) :
    Passes fuel (count + 1) (inFront net nets) (inFront n completed) (inFront first reasons) := by
  refine ⟨fun k hk => ?_, fun k hk => ?_, fun k hk => ?_, fun k hk => ?_⟩
  · cases k with
    | zero => exact hp
    | succ k => exact h.pass k (by omega)
  · cases k with
    | zero => exact ht
    | succ k => exact h.inTurn k (by omega)
  · cases k with
    | zero => exact hs
    | succ k => exact h.steps k (by omega)
  · cases k with
    | zero => exact hg (by omega)
    | succ k => exact h.goesOn k (by omega)

theorem take (h : Passes fuel (count + 1) nets completed reasons) :
    Passes fuel count nets completed reasons :=
  ⟨fun k hk => h.pass k (by omega), fun k hk => h.inTurn k (by omega),
    fun k hk => h.steps k (by omega), fun k hk => h.goesOn k (by omega)⟩

/-- Taken together, the passes complete what they complete one by one. -/
theorem total (h : Passes fuel count nets completed reasons) :
    (nets 0).InTurn 0 (∑ k ∈ Finset.range count, completed k) (nets count) 0 ∧
      (nets count).totalSteps = (nets 0).totalSteps + ∑ k ∈ Finset.range count, completed k := by
  induction count with
  | zero => exact ⟨.refl, rfl⟩
  | succ count ih =>
    obtain ⟨ht, hs⟩ := ih h.take
    have hlast := h.steps count (Nat.lt_succ_self _)
    rw [Finset.sum_range_succ]
    exact ⟨ht.trans (h.inTurn count (Nat.lt_succ_self _)), by omega⟩

/-- There is at most one pass more than instructions are completed in the passes. -/
theorem count_le (h : Passes fuel count nets completed reasons) :
    count - 1 ≤ ∑ k ∈ Finset.range count, completed k := by
  cases count with
  | zero => exact Nat.zero_le _
  | succ count =>
    have hone : ∀ k ∈ Finset.range count, 1 ≤ completed k := by
      intro k hk
      exact (h.goesOn k (by simpa using hk)).1
    calc count + 1 - 1 = (Finset.range count).card := (Finset.card_range count).symm
      _ = ∑ _k ∈ Finset.range count, 1 := Finset.card_eq_sum_ones _
      _ ≤ ∑ k ∈ Finset.range count, completed k := Finset.sum_le_sum hone
      _ ≤ ∑ k ∈ Finset.range (count + 1), completed k := by
        rw [Finset.sum_range_succ]
        exact Nat.le_add_right ..

end Passes

/-- **The passes of a run, one by one.** -/
theorem passes_of_runFrom {fuel passes limit : Nat} {net net' : Network} {report : Report}
    (h : runFrom fuel passes net limit = some (net', .ok report)) :
    ∃ count nets completed reasons, Passes fuel (count + 1) nets completed reasons ∧
      nets 0 = net ∧ nets (count + 1) = net' ∧ reasons count = report.reasons ∧
      report.passes = passes + (count + 1) := by
  induction limit generalizing passes net with
  | zero => cases h
  | succ limit ih =>
    obtain ⟨e, -, hr⟩ | ⟨last, hp, hr, -⟩ | ⟨net₁, first, hp, hw, hne, h⟩ := runFrom_succ h
    · cases hr
    · cases hr
      obtain ⟨n, hs, ht⟩ := inTurn_of_pass hp
      have hnone := Passes.none fuel (fun _ => net') (fun _ => n) (fun _ => last)
      exact ⟨0, _, _, _, hnone.cons hp ht hs (by simp), rfl, rfl, rfl, rfl⟩
    · obtain ⟨count, nets, completed, reasons, hpasses, rfl, hlast, hreasons, hcount⟩ := ih h
      obtain ⟨n, hs, ht⟩ := inTurn_of_pass hp
      have hgoes : 0 < n ∧ .waitingForInput ∈ first :=
        ⟨by omega, HaltReason.waiting_mem_of_waitingFrom hw⟩
      exact ⟨count + 1, _, _, _, hpasses.cons hp ht hs fun _ => hgoes, rfl, hlast, hreasons,
        by omega⟩

/-- **A run ends where only so many instructions can be completed.** Each pass but the last one uses
some of them up. -/
theorem returns_of_bounded {fuel limit bound : Nat} {net : Network} (passes : Nat)
    (h : ∀ n net' j, net.InTurn 0 n net' j → n ≤ bound) (hfuel : bound < fuel)
    (hlimit : bound < limit) : ∃ out, runFrom fuel passes net limit = some out := by
  induction limit generalizing passes net bound with
  | zero => omega
  | succ limit ih =>
    obtain ⟨⟨net₁, e | reasons⟩, hp⟩ := exists_pass_of_bounded fun n net' j hn =>
      Nat.lt_of_le_of_lt (h n net' j hn) hfuel
    · exact ⟨(net₁, .error e), by simp [runFrom, hp]⟩
    · obtain ⟨n, hs, ht⟩ := inTurn_of_pass hp
      have hn := h n net₁ 0 ht
      simp only [runFrom, hp, Option.bind_eq_bind, Option.bind_some]
      split
      · exact ⟨_, rfl⟩
      · split
        · exact ⟨_, rfl⟩
        · rename_i hne
          have hrest : ∀ k net' j, net₁.InTurn 0 k net' j → k ≤ bound - n := by
            intro k net' j hk
            have hall := h (n + k) net' j (ht.trans hk)
            omega
          exact ih (passes + 1) hrest (by omega) (by omega)

/-- **Every pass of a run but the last one makes progress.** A run that ends without a fault makes
passes, at least one; in each but the last one at least one instruction is completed and at least
one machine is left waiting, so there is at most one pass more than instructions are completed in
the run. If no more than `bound` instructions can be completed by the machines in turn, a run ends
after at most one pass more than that. -/
theorem run_progresses (p : Pipeline) :
    (∀ fuel q report, p.run fuel = some (q, .ok report) →
      ∃ nets completed reasons, Passes fuel report.passes nets completed reasons ∧
        nets 0 = p.network ∧ nets report.passes = q.network ∧
        reasons (report.passes - 1) = report.reasons ∧ 1 ≤ report.passes ∧
        ∃ n, n = ∑ k ∈ Finset.range report.passes, completed k ∧
          p.network.InTurn 0 n q.network 0 ∧
          q.network.totalSteps = p.network.totalSteps + n ∧ report.passes - 1 ≤ n) ∧
    ∀ bound, (∀ n net j, p.network.InTurn 0 n net j → n ≤ bound) →
      ∃ q r, p.run (bound + 1) = some (q, r) ∧
        ∀ report, r = .ok report → report.passes ≤ bound + 1 := by
  have hpasses {fuel : Nat} {q : Pipeline} {report : Report}
      (h : p.run fuel = some (q, .ok report)) :
      ∃ nets completed reasons, Passes fuel report.passes nets completed reasons ∧
        nets 0 = p.network ∧ nets report.passes = q.network ∧
        reasons (report.passes - 1) = report.reasons ∧ 1 ≤ report.passes := by
    obtain ⟨count, nets, completed, reasons, hall, hfirst, hlast, hreasons, hcount⟩ :=
      passes_of_runFrom (run_eq_some_iff.1 h).1
    rw [Nat.zero_add] at hcount
    rw [hcount]
    exact ⟨nets, completed, reasons, hall, hfirst, hlast, hreasons, Nat.succ_pos _⟩
  constructor
  · intro fuel q report h
    obtain ⟨nets, completed, reasons, hall, hfirst, hlast, hreasons, hpos⟩ := hpasses h
    obtain ⟨ht, hs⟩ := hall.total
    rw [hfirst, hlast] at ht hs
    exact ⟨nets, completed, reasons, hall, hfirst, hlast, hreasons, hpos, _, rfl, ht, hs,
      hall.count_le⟩
  · intro bound hbound
    obtain ⟨⟨net, r⟩, hr⟩ := returns_of_bounded 0 hbound
      (Nat.lt_succ_self _) (Nat.lt_succ_self _)
    have hrun : p.run (bound + 1) = some ({ p with network := net }, r) :=
      run_eq_some_iff.2 ⟨hr, rfl⟩
    refine ⟨_, r, hrun, ?_⟩
    rintro report rfl
    obtain ⟨nets, completed, reasons, hall, hfirst, hlast, -, -⟩ := hpasses hrun
    obtain ⟨ht, -⟩ := hall.total
    rw [hfirst] at ht
    have hcount := hall.count_le
    have hle := hbound _ _ _ ht
    omega

/-- Two machines in a ring pass on each other's seeds, and each its own one when it comes back. The
first one has to wait for it, so there is a second pass. -/
theorem run_progresses_ring :
    let program := Memory.ofWords #[3, 0, 4, 0, 3, 0, 4, 0, 99] 9
    let m : Machine := { memory := program, source := .tape 1, output := 0 }
    let n : Machine := { memory := program, source := .tape 0, output := 1 }
    let p : Pipeline := {
      network := { tapes := ⟨#[#[20], #[10]]⟩, machines := [m, n] }, topology := .ring }
    ∃ q report, p.run 5 = some (q, .ok report) ∧ report.passes = 2 ∧
      (∃ nets completed reasons, Passes 5 report.passes nets completed reasons ∧
        nets 0 = p.network ∧ nets report.passes = q.network) ∧
      (∀ n net j, p.network.InTurn 0 n net j → n ≤ 8) ∧ ∃ q r, p.run (8 + 1) = some (q, r) := by
  have told {p q : Pipeline} {report : Report} (hr : p.run 5 = some (q, .ok report))
      (hp : report.passes = 2) (hs : q.network.totalSteps = p.network.totalSteps + 8) :
      ∃ q report, p.run 5 = some (q, .ok report) ∧ report.passes = 2 ∧
        (∃ nets completed reasons, Passes 5 report.passes nets completed reasons ∧
          nets 0 = p.network ∧ nets report.passes = q.network) ∧
        (∀ n net j, p.network.InTurn 0 n net j → n ≤ 8) ∧ ∃ q r, p.run (8 + 1) = some (q, r) := by
    obtain ⟨nets, completed, reasons, hall, hfirst, hlast, -, -, n, -, ht, hn, -⟩ :=
      (run_progresses p).1 5 q report hr
    have hbound : ∀ k net j, p.network.InTurn 0 k net j → k ≤ 8 := by
      intro k net j hk
      have hle := ht.le_of_at_rest (run_at_rest hr).2 hk
      omega
    obtain ⟨q', r, hrun, -⟩ := (run_progresses p).2 8 hbound
    exact ⟨q, report, hr, hp, ⟨nets, completed, reasons, hall, hfirst, hlast⟩, hbound, q', r, hrun⟩
  exact told rfl rfl rfl

end Pipeline
end Intcode
