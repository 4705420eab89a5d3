import Artifacts.Webhooks.Worker
import Mathlib.Algebra.Ring.Int.Defs

/-!
# The queue drains

A row that is not final has a number of tries left: what is missing to `WORKER_MAX_ATTEMPTS`,
and one at least while no worker holds it.  A claim takes a try from every row that it hands
out, a mark gives none back, and a restart gives back at most one for every row that a worker
held.  So in every run the workers are handed a bounded number of rows, as long as marks come
before the lease of their claim ends; and when a poll long after finds nothing due, every row
is final.

The sum of the tries left is the potential.  It is compared with what was granted over a whole
run and not call by call, so the order of workers, restarts and pruning does not matter.
-/

namespace Artifacts
namespace Webhooks
namespace Sqlite

open Events Foundation Rust Secrets

variable {crates : Crates}

/-! ### Tries -/

/-- The ids of the rows that workers hold. -/
def Outbox.held (s : Outbox) : List Nat := (s.claimed ++ s.sent).map PendingDelivery.id

/-- The tries that a row has left, if `held` are the rows that workers hold. -/
def triesLeft (held : List Nat) (row : DeliveryRow) : Nat :=
  if row.finalizedAt.isSome then 0
  else if row.id ∈ held then workerMaxAttempts - row.attempts
  else max 1 (workerMaxAttempts - row.attempts)

/-- The tries that all rows have left. -/
def Outbox.potential (s : Outbox) : Nat := (s.store.deliveries.rows.map (triesLeft s.held)).sum

/-- The tries that a step adds: those of the rows that it queues, or one for every row that a
worker held when it was stopped. -/
def Outbox.granted (s : Outbox) : Work → Nat
  | .enqueue now repoId kind payload =>
      workerMaxAttempts * (s.store.enqueueDelivery now repoId kind payload).2
  | .restart => s.held.length
  | _ => 0

/-- A claim finds no row that a worker holds, and counts its attempt within a `u32`. -/
def Outbox.Prompt (s : Outbox) : Work → Prop
  | .claim now limit => ∀ row ∈ s.store.due now limit, row.id ∉ s.held ∧ row.attempts + 1 < 2 ^ 32
  | _ => True

/-- A row is held by one worker, which knows the attempts in its column. -/
structure Outbox.Tidy (s : Outbox) : Prop where
  once : s.held.Nodup
  known : ∀ id ∈ s.held, id < s.store.next
  same : ∀ p ∈ s.claimed ++ s.sent, ∀ row ∈ s.store.deliveries.rows, row.id = p.id →
    row.attempts = p.attempts

theorem Outbox.opened_tidy (store : Store) : (Outbox.opened store).Tidy where
  once := List.nodup_nil
  known _ h := by cases h
  same _ h := by cases h

/-! ### Sums over the rows -/

section Sums

variable {α : Type} {p : α → Bool} {f g : α → Nat} {xs : List α}

theorem sum_add_countP_le (h : ∀ x ∈ xs, f x + (if p x then 1 else 0) ≤ g x) :
    (xs.map f).sum + xs.countP p ≤ (xs.map g).sum := by
  induction xs with
  | nil => simp
  | cons x xs ih =>
      have hx := h x List.mem_cons_self
      have hxs := ih fun y hy => h y (List.mem_cons_of_mem x hy)
      rw [List.map_cons, List.map_cons, List.sum_cons, List.sum_cons, List.countP_cons]
      omega

theorem sum_le_add_countP (h : ∀ x ∈ xs, f x ≤ g x + if p x then 1 else 0) :
    (xs.map f).sum ≤ (xs.map g).sum + xs.countP p := by
  induction xs with
  | nil => simp
  | cons x xs ih =>
      have hx := h x List.mem_cons_self
      have hxs := ih fun y hy => h y (List.mem_cons_of_mem x hy)
      rw [List.map_cons, List.map_cons, List.sum_cons, List.sum_cons, List.countP_cons]
      omega

theorem sum_map_le (h : ∀ x ∈ xs, f x ≤ g x) : (xs.map f).sum ≤ (xs.map g).sum := by
  have hsum := @sum_le_add_countP _ (fun _ => false) f g xs (by simpa using h)
  simpa using hsum

theorem sum_filter_le : ((xs.filter p).map f).sum ≤ (xs.map f).sum := by
  induction xs with
  | nil => simp
  | cons x xs ih =>
      rw [List.filter_cons]
      split
      · rw [List.map_cons, List.map_cons, List.sum_cons, List.sum_cons]
        omega
      · rw [List.map_cons, List.sum_cons]
        omega

end Sums

/-! ### Claims -/

/-- The rows that a claim takes, as `claim_pending_deliveries` finds them again by their ids. -/
def Store.takes (store : Store) (now : Int64) (limit : Nat) (row : DeliveryRow) : Bool :=
  (store.due now limit).any fun claimed => claimed.id == row.id

theorem takes_iff {store : Store} {now : Int64} {limit : Nat} {row : DeliveryRow}
    (hrow : row ∈ store.deliveries.rows) :
    store.takes now limit row = true ↔ row ∈ store.due now limit := by
  constructor
  · intro h
    obtain ⟨claimed, hdue, hid⟩ := List.any_eq_true.mp h
    obtain rfl := Table.ext_key (mem_due hdue).1 hrow (eq_of_beq hid)
    exact hdue
  · intro h
    exact List.any_eq_true.mpr ⟨row, h, beq_self_eq_true _⟩

theorem length_due_le (store : Store) (now : Int64) (limit : Nat) :
    (store.due now limit).length ≤ store.deliveries.rows.countP (store.takes now limit) := by
  rw [List.countP_eq_length_filter]
  refine (List.subperm_of_subset (List.Nodup.of_map _ (due_nodup store now limit)) ?_).length_le
  intro row hrow
  exact List.mem_filter.mpr ⟨(mem_due hrow).1, (takes_iff (mem_due hrow).1).mpr hrow⟩

theorem length_claims (s : Outbox) (now : Int64) (limit : Nat) :
    (s.claims crates (.claim now limit)).length = (s.store.due now limit).length := by
  simp [Outbox.claims, Store.claimPendingDeliveries]

theorem held_claim (s : Outbox) (now : Int64) (limit : Nat) :
    (s.step crates (.claim now limit)).held.Perm
      ((s.store.due now limit).map DeliveryRow.id ++ s.held) := by
  have hids : (s.store.claimPendingDeliveries crates now limit).2.map PendingDelivery.id =
      (s.store.due now limit).map DeliveryRow.id := by
    simp [Store.claimPendingDeliveries, pending]
  simp only [Outbox.held, Outbox.step, List.map_append, hids]
  rw [List.append_assoc, ← List.append_assoc]
  exact (List.perm_append_comm).append_right _ |>.trans (by rw [List.append_assoc])

theorem Outbox.Tidy.claim {s : Outbox} (h : s.Tidy) {now : Int64} {limit : Nat}
    (hprompt : s.Prompt (.claim now limit)) : (s.step crates (.claim now limit)).Tidy where
  once := by
    refine (held_claim s now limit).nodup_iff.mpr (List.nodup_append'.mpr ⟨due_nodup _ _ _, h.once, ?_⟩)
    intro id hdue hheld
    obtain ⟨row, hrow, rfl⟩ := List.mem_map.mp hdue
    exact (hprompt row hrow).1 hheld
  known := by
    intro id hid
    show id < s.store.next
    rcases List.mem_append.mp ((held_claim s now limit).mem_iff.mp hid) with hdue | hheld
    · obtain ⟨row, hrow, rfl⟩ := List.mem_map.mp hdue
      exact s.store.below row (mem_due hrow).1
    · exact h.known id hheld
  same := by
    intro p hp row hrow hid
    obtain ⟨stored, hstored, hsame, -, hclaim⟩ := mem_claimed crates hrow
    have hsplit : p ∈ s.claimed ++ s.sent ∨
        p ∈ (s.store.due now limit).map (pending crates s.store.masterKey) := by
      simp only [Outbox.step, Store.claimPendingDeliveries, List.mem_append] at hp ⊢
      tauto
    rcases hsplit with hold | hnew
    · have hheld : p.id ∈ s.held := List.mem_map_of_mem hold
      rcases hclaim with ⟨hdue, -⟩ | ⟨-, hattempts⟩
      · exact absurd (by rwa [hsame, hid]) (hprompt stored hdue).1
      · rw [hattempts]
        exact h.same p hold stored hstored (hsame.trans hid)
    · obtain ⟨claimed, hdue, rfl⟩ := List.mem_map.mp hnew
      have hfits := (hprompt claimed hdue).2
      have hattempts' : (pending crates s.store.masterKey claimed).attempts = claimed.attempts + 1 :=
        Nat.mod_eq_of_lt hfits
      rcases hclaim with ⟨-, hattempts⟩ | ⟨hnot, -⟩
      · obtain rfl := Table.ext_key (mem_due hdue).1 hstored (hid.symm.trans hsame.symm)
        rw [hattempts, hattempts']
      · exact absurd hid.symm (hnot claimed hdue)

/-- A claim takes a try from every row that it hands out. -/
theorem potential_claim {s : Outbox} {now : Int64} {limit : Nat}
    (hprompt : s.Prompt (.claim now limit)) :
    (s.claims crates (.claim now limit)).length + (s.step crates (.claim now limit)).potential ≤
      s.potential := by
  have hrow : ∀ row ∈ s.store.deliveries.rows,
      triesLeft (s.step crates (.claim now limit)).held
          (if s.store.takes now limit row then row.leased now else row) +
        (if s.store.takes now limit row then 1 else 0) ≤ triesLeft s.held row := by
    intro row hrow
    by_cases htake : s.store.takes now limit row = true
    · have hdue := (takes_iff hrow).mp htake
      have hfree := (hprompt row hdue).1
      have hheld : row.id ∈ (s.step crates (.claim now limit)).held :=
        (held_claim s now limit).mem_iff.mpr (List.mem_append_left _ (List.mem_map_of_mem hdue))
      have hpending := (mem_due hdue).2
      simp only [htake, if_true, triesLeft, DeliveryRow.leased, hpending, Option.isSome_none, hheld,
        hfree, if_false, Bool.false_eq_true]
      omega
    · have hnot : row ∉ s.store.due now limit := fun hdue => htake ((takes_iff hrow).mpr hdue)
      have hheld : row.id ∈ (s.step crates (.claim now limit)).held ↔ row.id ∈ s.held := by
        rw [(held_claim s now limit).mem_iff, List.mem_append]
        refine or_iff_right fun hdue => ?_
        obtain ⟨claimed, hclaimed, hid⟩ := List.mem_map.mp hdue
        obtain rfl := Table.ext_key (mem_due hclaimed).1 hrow hid
        exact hnot hclaimed
      simp only [htake, if_false, triesLeft, hheld, Nat.add_zero, Bool.false_eq_true]
      exact Nat.le_refl _
  have hsum := sum_add_countP_le hrow
  have hlength := length_due_le s.store now limit
  rw [length_claims]
  have hpotential : (s.step crates (.claim now limit)).potential =
      (s.store.deliveries.rows.map fun row => triesLeft (s.step crates (.claim now limit)).held
        (if s.store.takes now limit row then row.leased now else row)).sum := by
    unfold Outbox.potential
    show ((s.store.deliveries.rows.map _).map _).sum = _
    rw [List.map_map]
    rfl
  rw [hpotential]
  unfold Outbox.potential
  omega

/-! ### Marks -/

/-- A mark makes the row final, and gives up only after the last attempt; or it sets the row
back to be due after the backoff. -/
theorem markDispatched_outcome (store : Store) (now : Int64) (p : PendingDelivery) (sending : Sending) :
    (∃ outcome status, store.markDispatched now p sending =
        store.markDeliveryFinalized now p.id outcome status ∧
      (outcome = "exhausted" → workerMaxAttempts ≤ p.attempts)) ∨
    p.attempts < workerMaxAttempts ∧ ∃ reason, store.markDispatched now p sending =
      store.markDeliveryRetry p.id p.attempts (now + workerBackoffSecs p.attempts) reason := by
  have hretryable : ∀ reason,
      (∃ outcome status, Store.markDispatched.retryable store now p reason =
          store.markDeliveryFinalized now p.id outcome status ∧
        (outcome = "exhausted" → workerMaxAttempts ≤ p.attempts)) ∨
      p.attempts < workerMaxAttempts ∧ ∃ reason', Store.markDispatched.retryable store now p reason =
        store.markDeliveryRetry p.id p.attempts (now + workerBackoffSecs p.attempts) reason' := by
    intro reason
    unfold Store.markDispatched.retryable
    by_cases hmax : workerMaxAttempts ≤ p.attempts
    · rw [if_pos hmax]
      exact Or.inl ⟨_, _, rfl, fun _ => hmax⟩
    · rw [if_neg hmax]
      exact Or.inr ⟨Nat.lt_of_not_le hmax, _, rfl⟩
  cases sending with
  | ok status => exact Or.inl ⟨_, _, rfl, fun h => absurd h (by decide)⟩
  | status code =>
      unfold Store.markDispatched
      dsimp only
      by_cases hclient : 400 ≤ code ∧ code < 500
      · rw [if_pos hclient]
        exact Or.inl ⟨_, _, rfl, fun h => absurd h (by decide)⟩
      · rw [if_neg hclient]
        exact hretryable _
  | transport => exact hretryable _

theorem held_mark {s : Outbox} {now : Int64} {p : PendingDelivery} {sending : Sending}
    (hsent : p ∈ s.sent) : s.held.Perm (p.id :: (s.step crates (.mark now p sending)).held) := by
  have hperm : (s.claimed ++ s.sent).Perm (p :: (s.claimed ++ s.sent.erase p)) :=
    ((List.perm_cons_erase hsent).append_left _).trans List.perm_middle
  simp only [Outbox.held, Outbox.step, if_pos hsent]
  exact hperm.map PendingDelivery.id

/-- The rows after a mark, each with the attempts that it had. -/
theorem mem_marked {s : Outbox} (h : s.Tidy) {now : Int64} {p : PendingDelivery} {sending : Sending}
    (hsent : p ∈ s.sent) {after : DeliveryRow}
    (hafter : after ∈ (s.store.markDispatched now p sending).deliveries.rows) :
    ∃ stored ∈ s.store.deliveries.rows, stored.id = after.id ∧ after.attempts = stored.attempts ∧
      (after = stored ∨
        after.finalizedAt.isSome = true ∧
          (after.finalizedOutcome = some "exhausted" → workerMaxAttempts ≤ after.attempts) ∨
        after.finalizedAt = stored.finalizedAt ∧ after.finalizedOutcome = stored.finalizedOutcome ∧
          after.nextAttemptAt = now + workerBackoffSecs p.attempts) := by
  rcases markDispatched_outcome s.store now p sending with
    ⟨outcome, status, hmark, hgiven⟩ | ⟨-, reason, hmark⟩
  · rw [hmark] at hafter
    obtain ⟨stored, hstored, ⟨hid, rfl⟩ | rfl⟩ := mem_updateDeliveries _ hafter
    · refine ⟨stored, hstored, rfl, rfl, Or.inr (Or.inl ⟨rfl, fun hexhausted => ?_⟩)⟩
      show workerMaxAttempts ≤ stored.attempts
      rw [h.same p (List.mem_append_right _ hsent) stored hstored hid]
      exact hgiven (Option.some.inj hexhausted)
    · exact ⟨after, hstored, rfl, rfl, Or.inl rfl⟩
  · rw [hmark] at hafter
    obtain ⟨stored, hstored, ⟨hid, rfl⟩ | rfl⟩ := mem_updateDeliveries _ hafter
    · have hsame := h.same p (List.mem_append_right _ hsent) stored hstored hid
      exact ⟨stored, hstored, rfl, hsame.symm, Or.inr (Or.inr ⟨rfl, rfl, rfl⟩)⟩
    · exact ⟨after, hstored, rfl, rfl, Or.inl rfl⟩

theorem next_markDispatched (store : Store) (now : Int64) (p : PendingDelivery) (sending : Sending) :
    (store.markDispatched now p sending).next = store.next := by
  rcases markDispatched_outcome store now p sending with ⟨_, _, hmark, -⟩ | ⟨-, _, hmark⟩
  · rw [hmark]
    rfl
  · rw [hmark]
    rfl

theorem Outbox.Tidy.mark {s : Outbox} (h : s.Tidy) {now : Int64} {p : PendingDelivery}
    {sending : Sending} (hsent : p ∈ s.sent) : (s.step crates (.mark now p sending)).Tidy where
  once := (List.nodup_cons.mp ((held_mark hsent).nodup_iff.mp h.once)).2
  known := by
    intro id hid
    have hnext : (s.step crates (.mark now p sending)).store.next = s.store.next := by
      simp only [Outbox.step, if_pos hsent]
      exact next_markDispatched _ _ _ _
    rw [hnext]
    exact h.known id ((held_mark hsent).mem_iff.mpr (List.mem_cons_of_mem _ hid))
  same := by
    intro q hq row hrow hid
    simp only [Outbox.step, if_pos hsent] at hq hrow
    obtain ⟨stored, hstored, hsame, hattempts, -⟩ := mem_marked h hsent hrow
    rw [hattempts]
    refine h.same q ?_ stored hstored (hsame.trans hid)
    exact (List.mem_append.mp hq).elim (List.mem_append_left _)
      fun hrest => List.mem_append_right _ (List.mem_of_mem_erase hrest)

/-- A mark gives no try back. -/
theorem potential_mark {s : Outbox} (h : s.Tidy) {now : Int64} {p : PendingDelivery}
    {sending : Sending} (hsent : p ∈ s.sent) :
    (s.step crates (.mark now p sending)).potential ≤ s.potential := by
  have hheld : p.id ∈ s.held := List.mem_map_of_mem (List.mem_append_right _ hsent)
  have hsums : ∀ f : DeliveryRow → DeliveryRow, (∀ row, (f row).id = row.id) →
      (∀ row ∈ s.store.deliveries.rows, row.id = p.id → ∀ held,
        triesLeft held (f row) ≤ triesLeft s.held row) →
      ((s.store.deliveries.rows.map fun row => if row.id == p.id then f row else row).map
        (triesLeft (s.step crates (.mark now p sending)).held)).sum ≤ s.potential := by
    intro f hf hle
    rw [List.map_map]
    refine sum_map_le fun row hrow => ?_
    show triesLeft _ (if row.id == p.id then f row else row) ≤ triesLeft s.held row
    by_cases hid : row.id = p.id
    · rw [if_pos (beq_iff_eq.mpr hid)]
      exact hle row hrow hid _
    · have hrest : row.id ∈ s.held ↔ row.id ∈ (s.step crates (.mark now p sending)).held := by
        rw [(held_mark hsent).mem_iff, List.mem_cons, or_iff_right hid]
      rw [if_neg fun h => hid (eq_of_beq h)]
      simp only [triesLeft, hrest]
      exact Nat.le_refl _
  have hstep : (s.step crates (.mark now p sending)).store = s.store.markDispatched now p sending := by
    simp only [Outbox.step, if_pos hsent]
  rw [Outbox.potential, hstep]
  rcases markDispatched_outcome s.store now p sending with
    ⟨outcome, status, hmark, -⟩ | ⟨hmax, reason, hmark⟩
  · rw [hmark]
    refine hsums _ (fun _ => rfl) fun row _ _ held => ?_
    simp [triesLeft]
  · rw [hmark]
    refine hsums _ (fun _ => rfl) fun row hrow hid held => ?_
    have hattempts := h.same p (List.mem_append_right _ hsent) row hrow hid
    have hrowHeld : row.id ∈ s.held := hid ▸ hheld
    unfold triesLeft
    dsimp only
    split_ifs <;> omega

/-! ### Every step -/

/-- The rows that are queued stand behind the others. -/
theorem rows_pushes (now : Int64) (kind : String) (payload : List UInt8) (hooks : List HookRow)
    (store : Store) :
    ∃ new, (hooks.foldl (fun store hook => store.push (newDelivery now kind payload hook))
        store).deliveries.rows = store.deliveries.rows ++ new ∧ new.length = hooks.length ∧
      ∀ row ∈ new, store.next ≤ row.id ∧ row.attempts = 0 ∧ row.finalizedAt = none ∧
        row.finalizedOutcome = none ∧ row.nextAttemptAt = now := by
  induction hooks generalizing store with
  | nil => exact ⟨[], by simp, rfl, by simp⟩
  | cons hook hooks ih =>
      obtain ⟨new, hrows, hlength, hnew⟩ := ih (store.push (newDelivery now kind payload hook))
      refine ⟨{ newDelivery now kind payload hook with id := store.next } :: new, ?_, ?_, ?_⟩
      · rw [List.foldl_cons, hrows]
        exact (List.append_cons _ _ _).symm
      · rw [List.length_cons, List.length_cons, hlength]
      · intro row hrow
        rcases List.mem_cons.mp hrow with rfl | hrow
        · exact ⟨Nat.le_refl _, rfl, rfl, rfl, rfl⟩
        · obtain ⟨hid, hrest⟩ := hnew row hrow
          exact ⟨Nat.le_trans (Nat.le_succ _) hid, hrest⟩

theorem Outbox.Tidy.step {s : Outbox} (h : s.Tidy) (w : Work) (hprompt : s.Prompt w) :
    (s.step crates w).Tidy := by
  cases w with
  | enqueue now repoId kind payload =>
      refine ⟨h.once, fun id hid => ?_, fun p hp row hrow hid => ?_⟩
      · exact Nat.lt_of_lt_of_le (h.known id hid) (pushes_next now kind payload _ s.store)
      · rcases mem_enqueued hrow with hold | hnew
        · exact h.same p hp row hold hid
        · have hlt := h.known p.id (List.mem_map_of_mem hp)
          omega
  | claim now limit => exact h.claim hprompt
  | send row =>
      unfold Outbox.step
      dsimp only
      split
      · rename_i hclaimed
        have hperm : (s.claimed.erase row ++ row :: s.sent).Perm (s.claimed ++ s.sent) :=
          List.perm_middle.trans ((List.perm_cons_erase hclaimed).symm.append_right _)
        have hheld := hperm.map PendingDelivery.id
        exact ⟨hheld.nodup_iff.mpr h.once, fun id hid => h.known id (hheld.mem_iff.mp hid),
          fun p hp => h.same p (hperm.mem_iff.mp hp)⟩
      · exact h
  | mark now row sending =>
      by_cases hsent : row ∈ s.sent
      · exact h.mark hsent
      · simpa only [Outbox.step, if_neg hsent] using h
  | prune cutoff =>
      exact ⟨h.once, h.known, fun p hp row hrow => h.same p hp row (Table.mem_delete.mp hrow).1⟩
  | restart =>
      refine ⟨List.nodup_nil, fun id hid => ?_, fun p hp => ?_⟩
      · cases hid
      · cases hp
  | registry webhooks masterKey => exact ⟨h.once, h.known, h.same⟩

/-- **Every step pays** for the rows that it hands out. -/
theorem potential_step {s : Outbox} (h : s.Tidy) (w : Work) (hprompt : s.Prompt w) :
    (s.claims crates w).length + (s.step crates w).potential ≤ s.potential + s.granted w := by
  cases w with
  | enqueue now repoId kind payload =>
      obtain ⟨new, hrows, hlength, hnew⟩ :=
        rows_pushes now kind payload (s.store.wanting repoId kind) s.store
      have hrows' : (s.step crates (.enqueue now repoId kind payload)).store.deliveries.rows =
          s.store.deliveries.rows ++ new := hrows
      -- a new row starts with no attempt made and in no hand, so with eight tries at most
      have htries : (new.map (triesLeft s.held)).sum ≤ workerMaxAttempts * new.length := by
        have hsum : (new.map (triesLeft s.held)).sum ≤ (new.map fun _ => workerMaxAttempts).sum := by
          refine sum_map_le fun row hrow => ?_
          obtain ⟨-, hattempts, hpending, -⟩ := hnew row hrow
          simp only [triesLeft, hattempts, hpending, workerMaxAttempts]
          split_ifs <;> omega
        simpa [Nat.mul_comm] using hsum
      have hpotential : (s.step crates (.enqueue now repoId kind payload)).potential =
          s.potential + (new.map (triesLeft s.held)).sum := by
        unfold Outbox.potential
        rw [hrows', List.map_append, List.sum_append]
        rfl
      have hgranted : s.granted (.enqueue now repoId kind payload) =
          workerMaxAttempts * new.length := by
        rw [hlength]
        rfl
      rw [hpotential, hgranted]
      simp only [Outbox.claims, List.length_nil]
      omega
  | claim now limit =>
      have hpays := @potential_claim crates s now limit hprompt
      exact Nat.le_trans hpays (Nat.le_add_right _ _)
  | send row =>
      have hsame : (s.step crates (.send row)).potential = s.potential := by
        unfold Outbox.step
        dsimp only
        split
        · rename_i hclaimed
          -- a delivery that is sent stays in the hand of its worker
          have hperm : (s.claimed.erase row ++ row :: s.sent).Perm (s.claimed ++ s.sent) :=
            List.perm_middle.trans ((List.perm_cons_erase hclaimed).symm.append_right _)
          unfold Outbox.potential Outbox.held
          dsimp only
          congr 2
          funext other
          simp only [triesLeft, (hperm.map PendingDelivery.id).mem_iff]
        · rfl
      rw [hsame]
      simp [Outbox.claims, Outbox.granted]
  | mark now row sending =>
      have hle : (s.step crates (.mark now row sending)).potential ≤ s.potential := by
        by_cases hsent : row ∈ s.sent
        · exact potential_mark h hsent
        · simp only [Outbox.step, if_neg hsent]
          exact Nat.le_refl _
      simpa [Outbox.claims, Outbox.granted] using hle
  | prune cutoff =>
      have hle : (s.step crates (.prune cutoff)).potential ≤ s.potential :=
        sum_filter_le
      simpa [Outbox.claims, Outbox.granted] using hle
  | restart =>
      -- at most one row for each delivery that was held, since row ids differ
      have hcount : (s.store.deliveries.rows.countP fun row => decide (row.id ∈ s.held)) ≤
          s.held.length := by
        rw [List.countP_eq_length_filter, ← @List.length_map _ _ _ DeliveryRow.id]
        refine (List.subperm_of_subset ?_ ?_).length_le
        · exact s.store.deliveries.distinct.sublist (List.filter_sublist.map DeliveryRow.id)
        · intro id hid
          obtain ⟨row, hrow, rfl⟩ := List.mem_map.mp hid
          simpa using (List.mem_filter.mp hrow).2
      have hle : (s.step crates .restart).potential ≤ s.potential +
          s.store.deliveries.rows.countP fun row => decide (row.id ∈ s.held) := by
        refine sum_le_add_countP fun row _ => ?_
        have hnone : (s.step crates .restart).held = [] := rfl
        simp only [hnone, triesLeft, List.not_mem_nil, if_false, decide_eq_true_eq]
        split_ifs <;> omega
      simp only [Outbox.claims, Outbox.granted, List.length_nil]
      omega
  | registry webhooks masterKey =>
      simp only [Outbox.claims, Outbox.granted, List.length_nil]
      exact Nat.le_of_eq (Nat.zero_add _)

/-! ### Times -/

/-- The clocks of a run show at most `latest`, and never a time before the epoch. They may go back.
-/
def Work.Until (latest : Int) : Work → Prop
  | .enqueue now _ _ _ | .claim now _ | .mark now _ _ => 0 ≤ now.toInt ∧ now.toInt ≤ latest
  | _ => True

/-- No time that is added to a clock overflows. -/
theorem toInt_add_delay {latest : Int} (hlatest : latest + workerBackoffMaxSecs < 2 ^ 63) {now delay : Int64}
    (hnow : 0 ≤ now.toInt ∧ now.toInt ≤ latest)
    (hdelay : 0 ≤ delay.toInt ∧ delay.toInt ≤ workerBackoffMaxSecs) :
    (now + delay).toInt ≤ latest + workerBackoffMaxSecs := by
  rw [Int64.toInt_add, Int.bmod_def]
  omega

theorem toInt_inflightRescheduleSecs : inflightRescheduleSecs.toInt = 60 := by decide

theorem toInt_workerBackoffSecs (attempt : Nat) :
    0 ≤ (workerBackoffSecs attempt).toInt ∧ (workerBackoffSecs attempt).toInt ≤ workerBackoffMaxSecs := by
  have hle : min (workerBackoffBaseSecs * (1 <<< min (attempt - 1) 20)) workerBackoffMaxSecs ≤ 3600 :=
    Nat.min_le_right _ _
  unfold workerBackoffSecs
  dsimp only
  rw [Int64.toInt_ofNat_of_lt (by omega)]
  simp only [workerBackoffMaxSecs] at hle ⊢
  omega

/-- A row is given up only after the last attempt. -/
def Outbox.Persistent (s : Outbox) : Prop :=
  ∀ row ∈ s.store.deliveries.rows, row.finalizedOutcome = some "exhausted" →
    workerMaxAttempts ≤ row.attempts

/-- A row that is not final is due within the longest backoff. -/
def Outbox.Soon (latest : Int) (s : Outbox) : Prop :=
  ∀ row ∈ s.store.deliveries.rows, row.finalizedAt = none →
    row.nextAttemptAt.toInt ≤ latest + workerBackoffMaxSecs

/-- A time that a step writes: its clock and a delay. -/
def Work.Writes (w : Work) (time : Int64) : Prop :=
  ∃ now delay, time = now + delay ∧ (0 ≤ delay.toInt ∧ delay.toInt ≤ workerBackoffMaxSecs) ∧
    ∀ latest, w.Until latest → 0 ≤ now.toInt ∧ now.toInt ≤ latest

/-- Where a row behind a step comes from, as far as it matters for giving up and being due. -/
inductive Outbox.Comes (s : Outbox) (w : Work) (after : DeliveryRow) : Prop where
  | kept (stored : DeliveryRow) (hstored : stored ∈ s.store.deliveries.rows)
      (hattempts : stored.attempts ≤ after.attempts)
      (houtcome : stored.finalizedOutcome = after.finalizedOutcome)
      (hfinal : stored.finalizedAt = after.finalizedAt)
      (hnext : after.nextAttemptAt = stored.nextAttemptAt ∨ w.Writes after.nextAttemptAt)
  | final (hfinal : after.finalizedAt.isSome = true)
      (hgiven : after.finalizedOutcome = some "exhausted" → workerMaxAttempts ≤ after.attempts)
  | queued (houtcome : after.finalizedOutcome = none)
      (hnext : ∀ latest, w.Until latest → after.nextAttemptAt.toInt ≤ latest)

theorem mem_step {s : Outbox} (h : s.Tidy) (w : Work) {after : DeliveryRow}
    (hafter : after ∈ (s.step crates w).store.deliveries.rows) : s.Comes w after := by
  have hold : after ∈ s.store.deliveries.rows → s.Comes w after :=
    fun hstored => .kept after hstored (Nat.le_refl _) rfl rfl (Or.inl rfl)
  cases w with
  | enqueue now repoId kind payload =>
      obtain ⟨new, hrows, -, hnew⟩ := rows_pushes now kind payload (s.store.wanting repoId kind) s.store
      have hmem : after ∈ s.store.deliveries.rows ++ new := hrows ▸ hafter
      rcases List.mem_append.mp hmem with hstored | hqueued
      · exact hold hstored
      · obtain ⟨-, -, -, houtcome, hnext⟩ := hnew after hqueued
        exact .queued houtcome fun latest hlatest => hnext ▸ hlatest.2
  | claim now limit =>
      obtain ⟨stored, hstored, heq⟩ := List.mem_map.mp hafter
      split at heq
      · subst heq
        refine .kept stored hstored (Nat.le_succ _) rfl rfl (Or.inr ⟨now, _, rfl, ?_, ?_⟩)
        · rw [toInt_inflightRescheduleSecs]
          decide
        · exact fun latest hlatest => hlatest
      · subst heq
        exact hold hstored
  | send row =>
      unfold Outbox.step at hafter
      dsimp only at hafter
      split at hafter
      · exact hold hafter
      · exact hold hafter
  | mark now row sending =>
      by_cases hsent : row ∈ s.sent
      · simp only [Outbox.step, if_pos hsent] at hafter
        obtain ⟨stored, hstored, -, hattempts, rfl | hfinal | ⟨hfinal, houtcome, hnext⟩⟩ :=
          mem_marked h hsent hafter
        · exact hold hstored
        · exact .final hfinal.1 hfinal.2
        · exact .kept stored hstored (Nat.le_of_eq hattempts.symm) houtcome.symm hfinal.symm
            (Or.inr ⟨now, _, hnext, toInt_workerBackoffSecs _, fun latest hlatest => hlatest⟩)
      · simp only [Outbox.step, if_neg hsent] at hafter
        exact hold hafter
  | prune cutoff => exact hold (Table.mem_delete.mp hafter).1
  | restart => exact hold hafter
  | registry webhooks masterKey => exact hold hafter

theorem Outbox.Persistent.step {s : Outbox} (hpersistent : s.Persistent) (h : s.Tidy) (w : Work) :
    (s.step crates w).Persistent := by
  intro row hrow hexhausted
  cases mem_step h w hrow with
  | kept stored hstored hattempts houtcome hfinal hnext =>
      have hbefore := hpersistent stored hstored (houtcome.trans hexhausted)
      omega
  | final hfinal hgiven => exact hgiven hexhausted
  | queued houtcome hnext =>
      rw [houtcome] at hexhausted
      cases hexhausted

theorem Outbox.Soon.step {latest : Int} (hlatest : latest + workerBackoffMaxSecs < 2 ^ 63) {s : Outbox}
    (hsoon : s.Soon latest) (h : s.Tidy) {w : Work} (hw : w.Until latest) :
    (s.step crates w).Soon latest := by
  intro row hrow hpending
  cases mem_step h w hrow with
  | kept stored hstored hattempts houtcome hfinal hnext =>
      rcases hnext with hsame | ⟨now, delay, hnext, hdelay, hnow⟩
      · rw [hsame]
        exact hsoon stored hstored (hfinal.trans hpending)
      · rw [hnext]
        exact toInt_add_delay hlatest (hnow latest hw) hdelay
  | final hfinal hgiven =>
      rw [hpending] at hfinal
      cases hfinal
  | queued houtcome hnext =>
      have hle := hnext latest hw
      simp only [workerBackoffMaxSecs]
      omega

/-! ### Whole runs -/

instance (s : Outbox) (w : Work) : Decidable (s.Prompt w) :=
  w.casesOn (fun _ _ _ _ => .isTrue trivial)
    (fun now limit => inferInstanceAs (Decidable (∀ row ∈ s.store.due now limit,
      row.id ∉ s.held ∧ row.attempts + 1 < 2 ^ 32)))
    (fun _ => .isTrue trivial) (fun _ _ _ => .isTrue trivial) (fun _ => .isTrue trivial)
    (.isTrue trivial) (fun _ _ => .isTrue trivial)

/-- A poll finds nothing only if no row is due. -/
theorem not_due_of_claims {s : Outbox} {now : Int64} {limit : Nat} (hlimit : 0 < limit)
    (h : s.claims crates (.claim now limit) = []) {row : DeliveryRow}
    (hrow : row ∈ s.store.deliveries.rows) : row.isDue now = false := by
  by_contra hdue
  have hselect : row ∈ s.store.deliveries.select (DeliveryRow.isDue now) :=
    Table.mem_select.mpr ⟨hrow, by simpa using hdue⟩
  have hempty : s.store.due now limit = [] := by
    rw [← List.length_eq_zero_iff, ← @length_claims crates, h]
    rfl
  unfold Store.due at hempty
  rcases List.take_eq_nil_iff.mp hempty with hzero | hnone
  · omega
  · have hmem := (List.mem_insertionSort (fun a b : DeliveryRow => a.id ≤ b.id)).mpr hselect
    rw [hnone] at hmem
    cases hmem

/-- **The queue drains.** In every run of queueing, workers, restarts, pruning and changes of
the registry in which no claim finds a row that a worker still holds: the rows that are handed
out, and the tries left at the end, are no more than the tries there were and those that
were granted, eight for a row that is queued and one for a row that a stopped worker held; a row is
given up only after its last attempt; and a poll that comes an hour after everything else and
finds nothing means that every row is final. -/
theorem queue_drains (crates : Crates) (store : Store) (work : List Work)
    (hprompt : EveryStep (Outbox.step crates) Outbox.Prompt (Outbox.opened store) work) :
    runTotal (Outbox.step crates) (fun s w => (s.claims crates w).length) (Outbox.opened store) work +
        (work.foldl (Outbox.step crates) (Outbox.opened store)).potential ≤
      (Outbox.opened store).potential +
        runTotal (Outbox.step crates) Outbox.granted (Outbox.opened store) work ∧
    ((Outbox.opened store).Persistent →
      (work.foldl (Outbox.step crates) (Outbox.opened store)).Persistent) ∧
    ∀ latest : Int, latest + workerBackoffMaxSecs < 2 ^ 63 → (∀ w ∈ work, w.Until latest) →
      (Outbox.opened store).Soon latest → ∀ (now : Int64) (limit : Nat),
        latest + workerBackoffMaxSecs ≤ now.toInt → 0 < limit →
        (work.foldl (Outbox.step crates) (Outbox.opened store)).claims crates (.claim now limit) = [] →
          ∀ row ∈ (work.foldl (Outbox.step crates) (Outbox.opened store)).store.deliveries.rows,
            row.finalizedAt.isSome = true := by
  refine ⟨?_, fun hpersistent => ?_, ?_⟩
  · exact runTotal_le_of_potential (fun s w hs hw => hs.step w hw)
      (fun s w hs hw => potential_step hs w hw) (Outbox.opened_tidy store) hprompt
  · have hstates := everyState_of_everyStep (P := Outbox.Persistent)
      (I := fun s => s.Tidy ∧ s.Persistent) (fun s hs => hs.2)
      (fun s w hs hw => ⟨hs.1.step w hw, hs.2.step hs.1 w⟩) ⟨Outbox.opened_tidy store, hpersistent⟩
      hprompt
    exact everyState_iff_prefix.mp hstates work (List.prefix_refl work)
  · intro latest hlatest huntil hsoon now limit hnow hlimit hnone row hrow
    have hrun := hprompt.and (everyStep_of_forall huntil)
    have hstates := everyState_of_everyStep (P := Outbox.Soon latest)
      (I := fun s => s.Tidy ∧ s.Soon latest) (fun s hs => hs.2)
      (fun s w hs hw => ⟨hs.1.step w hw.1, hs.2.step hlatest hs.1 hw.2⟩)
      ⟨Outbox.opened_tidy store, hsoon⟩ hrun
    have hend := everyState_iff_prefix.mp hstates work (List.prefix_refl work)
    have hdue := not_due_of_claims hlimit hnone hrow
    by_contra hpending
    have hfinal : row.finalizedAt = none := by simpa using hpending
    have hnext := hend row hrow hfinal
    have hle : row.nextAttemptAt ≤ now := Int64.le_iff_toInt_le.mpr (by omega)
    simp [DeliveryRow.isDue, hfinal, hle] at hdue

/-- A delivery that is queued, fails once and then goes through. -/
theorem queue_drains_twice :
    let work := [Work.enqueue 0 sampleRepo "commit" [1], .claim 0 32, .send (sampleDelivery 1),
      .mark 5 (sampleDelivery 1) .transport, .claim 65 32, .send (sampleDelivery 2),
      .mark 66 (sampleDelivery 2) (.ok 200)]
    ∀ row ∈ (work.foldl (Outbox.step sampleCrates) (Outbox.opened sampleStore)).store.deliveries.rows,
      row.finalizedAt.isSome = true := by
  intro work
  obtain ⟨-, -, hfinal⟩ := queue_drains sampleCrates sampleStore work (by decide +kernel)
  refine hfinal 66 (by decide) ?_ ?_ 4000 32 (by decide) (by decide) (by decide +kernel)
  · intro w hw
    simp only [work, List.mem_cons, List.not_mem_nil, or_false] at hw
    rcases hw with rfl | rfl | rfl | rfl | rfl | rfl | rfl <;> simp [Work.Until]
  · intro row hrow
    cases hrow

end Sqlite
end Webhooks
end Artifacts
