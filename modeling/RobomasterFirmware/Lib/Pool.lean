import Mathlib.Algebra.BigOperators.Group.Finset.Basic
import Mathlib.Algebra.Order.BigOperators.Group.Finset
import Mathlib.Data.Fintype.Basic
import Mathlib.Data.List.Nodup

/-!
# Counting Semaphores and Resource Pools

A counting semaphore whose waiters queue in order of arrival, and the pool that it guards: a thread
takes a permit, then a resource from the free list, and later puts the resource back before it
releases the permit. The two halves of each are separate steps, so any number of other threads may
run between them.

## Main Results
- `Pool.Accounted`: every resource is free or has one holder, the permits that are left or reserved
  are the free resources, and the sleepers are the waiters
- `Accounted.take`, `Accounted.unlink`, `Accounted.put`, `Accounted.release`: every step keeps it
- `Accounted.free_ne_nil`: a thread with a permit always finds a resource
- `Accounted.not_asleep`: nobody sleeps while more resources are free than threads are on the way
  to one
-/

namespace RobomasterFirmware.Lib

universe u v

variable {T : Type u} {R : Type v}

/-! ## The semaphore -/

/-- A counting semaphore: its value and the threads that wait for it, first come first. -/
structure Semaphore (T : Type u) where
  value : ℕ
  suspended : List T

namespace Semaphore

/-- Take a permit, or join the waiters. -/
def take (s : Semaphore T) (t : T) : Semaphore T :=
  if 0 < s.value then { s with value := s.value - 1 }
  else { s with suspended := s.suspended ++ [t] }

/-- Hand a permit to the first waiter, or count it. -/
def release (s : Semaphore T) : Semaphore T :=
  match s.suspended with
  | _ :: ws => { s with suspended := ws }
  | [] => { s with value := s.value + 1 }

end Semaphore

/-! ## The pool -/

/-- Where a thread is in its use of the pool. -/
inductive Phase (R : Type v) where
  | outside
  /-- Waits for a permit. -/
  | asleep
  /-- Has a permit and no resource yet. -/
  | permit
  | holds (r : R)
  /-- Has put its resource back and still has the permit. -/
  | returned
  deriving DecidableEq

namespace Phase

/-- A waiter that is handed a permit. -/
def wake : Phase R → Phase R
  | asleep => permit
  | ph => ph

/-- The permits for a free resource that a thread has in hand. -/
def reserved : Phase R → ℕ
  | permit => 1
  | returned => 1
  | _ => 0

end Phase

/-- A free list, its semaphore and what every thread does with them. -/
structure Pool (T : Type u) (R : Type v) where
  free : List R
  sem : Semaphore T
  phase : T → Phase R

namespace Pool

variable [DecidableEq T]

/-- `t` asks for a permit. -/
def take (p : Pool T R) (t : T) : Pool T R where
  free := p.free
  sem := p.sem.take t
  phase := Function.update p.phase t (if 0 < p.sem.value then .permit else .asleep)

/-- `t` unlinks the first free resource. -/
def unlink (p : Pool T R) (t : T) : Pool T R :=
  match p.free with
  | r :: free => { p with free := free, phase := Function.update p.phase t (.holds r) }
  | [] => p

/-- `t` puts its resource back, at the place in the free list that `free'` stands for. -/
def put (p : Pool T R) (t : T) (free' : List R) : Pool T R :=
  { p with free := free', phase := Function.update p.phase t .returned }

/-- `t` leaves the pool, and the first waiter gets its permit. -/
def release (p : Pool T R) (t : T) : Pool T R where
  free := p.free
  sem := p.sem.release
  phase :=
    let phase := Function.update p.phase t .outside
    match p.sem.suspended with
    | w :: _ => Function.update phase w (phase w).wake
    | [] => phase

/-! ## Accounting -/

variable [Fintype T]

/-- Resources, permits and sleepers are accounted for. -/
structure Accounted (p : Pool T R) : Prop where
  nodup : p.free.Nodup
  /-- A held resource is not free. -/
  not_free : ∀ t r, p.phase t = .holds r → r ∉ p.free
  /-- A resource has one holder. -/
  unique : ∀ t t' r, p.phase t = .holds r → p.phase t' = .holds r → t = t'
  /-- A resource that is not free is held. -/
  covered : ∀ r, r ∈ p.free ∨ ∃ t, p.phase t = .holds r
  /-- The permits left and the permits in hand are the free resources. -/
  permits : p.sem.value + ∑ t, (p.phase t).reserved = p.free.length
  sleepers : ∀ t, t ∈ p.sem.suspended ↔ p.phase t = .asleep
  sleepers_nodup : p.sem.suspended.Nodup
  /-- Nobody waits for a permit that is there. -/
  nobody_waits : 0 < p.sem.value → p.sem.suspended = []

variable {p : Pool T R} {t : T} {r : R}

/-- What one thread's change does to a sum over all threads. -/
theorem sum_update {X : Type v} (w : X → ℕ) (f : T → X) (t : T) (x : X) :
    ∑ u, w (Function.update f t x u) + w (f t) = ∑ u, w (f u) + w x := by
  -- take `t` out of both sums; the rest is the same
  have hsplit := Finset.add_sum_erase Finset.univ (fun u => w (f u)) (Finset.mem_univ t)
  have hsplit' := Finset.add_sum_erase Finset.univ
    (fun u => w (Function.update f t x u)) (Finset.mem_univ t)
  have hrest : ∑ u ∈ Finset.univ.erase t, w (Function.update f t x u) =
      ∑ u ∈ Finset.univ.erase t, w (f u) := by
    refine Finset.sum_congr rfl fun u hu => ?_
    rw [Function.update_of_ne (Finset.ne_of_mem_erase hu)]
  simp only [Function.update_self] at hsplit'
  omega

omit [DecidableEq T] in
/-- A thread with a permit in hand finds a resource. -/
theorem Accounted.free_ne_nil (h : p.Accounted) (ht : 0 < (p.phase t).reserved) :
    p.free ≠ [] := by
  have hle : (p.phase t).reserved ≤ ∑ u, (p.phase u).reserved :=
    Finset.single_le_sum (f := fun u => (p.phase u).reserved) (fun _ _ => Nat.zero_le _)
      (Finset.mem_univ t)
  have hpermits := h.permits
  intro hnil
  rw [hnil, List.length_nil] at hpermits
  omega

omit [DecidableEq T] in
/-- Nobody sleeps while there are more free resources than permits in hand. -/
theorem Accounted.not_asleep (h : p.Accounted)
    (hfree : ∑ u, (p.phase u).reserved < p.free.length) : p.phase t ≠ .asleep := by
  intro hasleep
  have hpermits := h.permits
  have hnone := h.nobody_waits (by omega)
  have hmem := (h.sleepers t).mpr hasleep
  rw [hnone] at hmem
  exact List.not_mem_nil hmem

/-! ## Every step keeps the account -/

omit [Fintype T] in
/-- A change between two phases that are not `ph'` does not change who is in phase `ph'`. -/
theorem update_eq_iff {f : T → Phase R} {ph ph' : Phase R} (hold : f t ≠ ph') (hnew : ph ≠ ph')
    (u : T) : Function.update f t ph u = ph' ↔ f u = ph' := by
  by_cases hu : u = t
  · subst hu
    rw [Function.update_self]
    exact ⟨fun h => absurd h hnew, fun h => absurd h hold⟩
  · rw [Function.update_of_ne hu]

omit [DecidableEq T] in
/-- What a step that leaves the free list and the holders alone has to say. -/
theorem Accounted.of_holds_iff {p' : Pool T R} (h : p.Accounted) (hfree : p'.free = p.free)
    (hholds : ∀ u r, p'.phase u = .holds r ↔ p.phase u = .holds r)
    (hpermits : p'.sem.value + ∑ u, (p'.phase u).reserved = p'.free.length)
    (hsleepers : ∀ u, u ∈ p'.sem.suspended ↔ p'.phase u = .asleep)
    (hnodup : p'.sem.suspended.Nodup) (hnobody : 0 < p'.sem.value → p'.sem.suspended = []) :
    p'.Accounted where
  nodup := hfree ▸ h.nodup
  not_free u r hu := hfree ▸ h.not_free u r ((hholds u r).mp hu)
  unique u u' r hu hu' := h.unique u u' r ((hholds u r).mp hu) ((hholds u' r).mp hu')
  covered r := by
    rw [hfree]
    exact (h.covered r).imp_right fun ⟨u, hu⟩ => ⟨u, (hholds u r).mpr hu⟩
  permits := hpermits
  sleepers := hsleepers
  sleepers_nodup := hnodup
  nobody_waits := hnobody

/-- **Step lemma.** Asking for a permit. -/
theorem Accounted.take (h : p.Accounted) (ht : p.phase t = .outside) : (p.take t).Accounted := by
  have hsum := sum_update Phase.reserved p.phase t
  have hpermits := h.permits
  -- a permit is left, or `t` joins the waiters
  by_cases hvalue : 0 < p.sem.value
  · have hstep : p.take t = ⟨p.free, { p.sem with value := p.sem.value - 1 },
        Function.update p.phase t .permit⟩ := by
      simp only [Pool.take, Semaphore.take, if_pos hvalue]
    rw [hstep]
    refine h.of_holds_iff rfl (fun u r => update_eq_iff (by simp [ht]) (by simp) u) ?_
      (fun u => (h.sleepers u).trans (update_eq_iff (by simp [ht]) (by simp) u).symm)
      h.sleepers_nodup fun _ => h.nobody_waits hvalue
    -- the permit that left the semaphore is in the hand of `t`
    have hpermit := hsum .permit
    rw [ht] at hpermit
    change _ + 0 = _ + 1 at hpermit
    change p.sem.value - 1 + ∑ u, (Function.update p.phase t .permit u).reserved = p.free.length
    omega
  · have hstep : p.take t = ⟨p.free, { p.sem with suspended := p.sem.suspended ++ [t] },
        Function.update p.phase t .asleep⟩ := by
      simp only [Pool.take, Semaphore.take, if_neg hvalue]
    have hnew : t ∉ p.sem.suspended := by
      rw [h.sleepers, ht]
      simp
    rw [hstep]
    refine h.of_holds_iff rfl (fun u r => update_eq_iff (by simp [ht]) (by simp) u) ?_
      (fun u => ?_) ?_ fun hpos => absurd hpos hvalue
    · have hasleep := hsum .asleep
      rw [ht] at hasleep
      change _ + 0 = _ + 0 at hasleep
      change p.sem.value + ∑ u, (Function.update p.phase t .asleep u).reserved = p.free.length
      omega
    · -- the new sleeper is the new waiter
      by_cases hu : u = t
      · subst hu
        simp only [List.mem_append, List.mem_singleton, or_true, Function.update_self]
      · simp only [List.mem_append, List.mem_singleton, hu, or_false, Function.update_of_ne hu,
          h.sleepers]
    · exact List.nodup_append.mpr ⟨h.sleepers_nodup, List.nodup_singleton t,
        fun a ha b hb => by
          rw [List.mem_singleton] at hb
          exact fun hab => hnew (hb ▸ hab ▸ ha)⟩

/-- **Step lemma.** Unlinking the first free resource. -/
theorem Accounted.unlink (h : p.Accounted) (ht : p.phase t = .permit) : (p.unlink t).Accounted := by
  have hsum := sum_update Phase.reserved p.phase t
  have hpermits := h.permits
  have hfree : p.free ≠ [] := h.free_ne_nil (t := t) (by simp [ht, Phase.reserved])
  -- by the account the permit stands for a free resource
  obtain ⟨r, free, hcons⟩ := List.exists_cons_of_ne_nil hfree
  have hstep : p.unlink t = ⟨free, p.sem, Function.update p.phase t (.holds r)⟩ := by
    simp only [Pool.unlink, hcons]
  have hnodup := List.nodup_cons.mp (hcons ▸ h.nodup)
  have hr : ∀ u, p.phase u ≠ .holds r := fun u hu =>
    h.not_free u r hu (hcons ▸ List.mem_cons_self)
  rw [hstep]
  -- a resource is held now if it was held before, or if it is the unlinked one
  have hholds : ∀ u r', Function.update p.phase t (.holds r) u = .holds r' ↔
      p.phase u = .holds r' ∨ (u = t ∧ r' = r) := by
    intro u r'
    by_cases hu : u = t
    · subst hu
      simp [ht, eq_comm]
    · simp [hu]
  constructor
  · exact hnodup.2
  · intro u r' hu
    rcases (hholds u r').mp hu with hu | ⟨-, rfl⟩
    · exact fun hmem => h.not_free u r' hu (hcons ▸ List.mem_cons_of_mem r hmem)
    · exact hnodup.1
  · intro u u' r' hu hu'
    -- two old holders were one; the unlinked resource had none
    rcases (hholds u r').mp hu with hold | ⟨rfl, rfl⟩
    · rcases (hholds u' r').mp hu' with hold' | ⟨-, rfl⟩
      · exact h.unique u u' r' hold hold'
      · exact absurd hold (hr u)
    · rcases (hholds u' _).mp hu' with hold' | ⟨rfl, -⟩
      · exact absurd hold' (hr u')
      · rfl
  · intro r'
    rcases h.covered r' with hmem | ⟨u, hu⟩
    · rw [hcons, List.mem_cons] at hmem
      rcases hmem with rfl | hmem
      · exact Or.inr ⟨t, (hholds t _).mpr (Or.inr ⟨rfl, rfl⟩)⟩
      · exact Or.inl hmem
    · exact Or.inr ⟨u, (hholds u r').mpr (Or.inl hu)⟩
  -- one permit in hand less, one free resource less
  · have hheld := hsum (.holds r)
    rw [ht] at hheld
    change _ + 1 = _ + 0 at hheld
    rw [hcons, List.length_cons] at hpermits
    change p.sem.value + ∑ u, (Function.update p.phase t (.holds r) u).reserved = free.length
    omega
  · exact fun u => (h.sleepers u).trans (update_eq_iff (by simp [ht]) (by simp) u).symm
  · exact h.sleepers_nodup
  · exact h.nobody_waits

/-- **Step lemma.** Putting a resource back, anywhere in the free list. -/
theorem Accounted.put (h : p.Accounted) (ht : p.phase t = .holds r) {free' : List R}
    (hperm : free'.Perm (r :: p.free)) : (p.put t free').Accounted := by
  have hreturned := sum_update Phase.reserved p.phase t .returned
  have hpermits := h.permits
  -- the resource is held no longer, and no other holder changes
  have hholds : ∀ u r', Function.update p.phase t .returned u = .holds r' ↔
      p.phase u = .holds r' ∧ u ≠ t := by
    intro u r'
    by_cases hu : u = t
    · subst hu
      simp
    · simp [hu]
  constructor
  · exact hperm.nodup_iff.mpr (List.nodup_cons.mpr ⟨h.not_free t r ht, h.nodup⟩)
  · intro u r' hu hmem
    obtain ⟨hu, hne⟩ := (hholds u r').mp hu
    rcases List.mem_cons.mp (hperm.mem_iff.mp hmem) with rfl | hmem
    · exact hne (h.unique u t r' hu ht)
    · exact h.not_free u r' hu hmem
  · intro u u' r' hu hu'
    exact h.unique u u' r' ((hholds u r').mp hu).1 ((hholds u' r').mp hu').1
  · intro r'
    change r' ∈ free' ∨ _
    rw [hperm.mem_iff, List.mem_cons]
    rcases h.covered r' with hmem | ⟨u, hu⟩
    · exact Or.inl (Or.inr hmem)
    · by_cases hut : u = t
      · subst hut
        rw [ht] at hu
        exact Or.inl (Or.inl (Phase.holds.inj hu).symm)
      · exact Or.inr ⟨u, (hholds u r').mpr ⟨hu, hut⟩⟩
  -- one permit in hand more, one free resource more
  · rw [ht] at hreturned
    change _ + 0 = _ + 1 at hreturned
    change p.sem.value + ∑ u, (Function.update p.phase t .returned u).reserved = free'.length
    rw [hperm.length_eq, List.length_cons]
    omega
  · exact fun u => (h.sleepers u).trans (update_eq_iff (by simp [ht]) (by simp) u).symm
  · exact h.sleepers_nodup
  · exact h.nobody_waits

/-- **Step lemma.** Releasing the permit, to the first waiter or back to the semaphore. -/
theorem Accounted.release (h : p.Accounted) (ht : p.phase t = .returned) :
    (p.release t).Accounted := by
  have hleave := sum_update Phase.reserved p.phase t .outside
  have hpermits := h.permits
  rw [ht] at hleave
  change _ + 1 = _ + 0 at hleave
  cases hsuspended : p.sem.suspended with
  | nil =>
    -- nobody waits, so the semaphore counts the permit
    have hstep : p.release t = ⟨p.free, { p.sem with value := p.sem.value + 1 },
        Function.update p.phase t .outside⟩ := by
      simp only [Pool.release, Semaphore.release, hsuspended]
    rw [hstep]
    refine h.of_holds_iff rfl (fun u r => update_eq_iff (by simp [ht]) (by simp) u) ?_
      (fun u => (h.sleepers u).trans (update_eq_iff (by simp [ht]) (by simp) u).symm)
      h.sleepers_nodup fun _ => hsuspended
    change p.sem.value + 1 + ∑ u, (Function.update p.phase t .outside u).reserved = p.free.length
    omega
  | cons w ws =>
    -- the waiter gets the permit that `t` gives up
    have hw : p.phase w = .asleep := (h.sleepers w).mp (hsuspended ▸ List.mem_cons_self)
    have hwt : w ≠ t := by
      rintro rfl
      rw [ht] at hw
      cases hw
    have hw' : Function.update p.phase t .outside w = .asleep := by
      rw [Function.update_of_ne hwt, hw]
    have hwake := sum_update Phase.reserved (Function.update p.phase t .outside) w .permit
    -- somebody waits, so no permit was left
    have hvalue : p.sem.value = 0 := by
      by_contra hne
      have hnil := h.nobody_waits (Nat.pos_of_ne_zero hne)
      rw [hsuspended] at hnil
      cases hnil
    have hnodup := List.nodup_cons.mp (hsuspended ▸ h.sleepers_nodup)
    have hstep : p.release t = ⟨p.free, { p.sem with suspended := ws },
        Function.update (Function.update p.phase t .outside) w .permit⟩ := by
      simp only [Pool.release, Semaphore.release, hsuspended, hw', Phase.wake]
    rw [hstep]
    refine h.of_holds_iff rfl (fun u r => ?_) ?_ (fun u => ?_) hnodup.2 fun hpos => ?_
    · exact (update_eq_iff (by simp [hw']) (by simp) u).trans
        (update_eq_iff (by simp [ht]) (by simp) u)
    · rw [hw'] at hwake
      change _ + 0 = _ + 1 at hwake
      change p.sem.value + ∑ u, (Function.update (Function.update p.phase t .outside) w
        .permit u).reserved = p.free.length
      omega
    -- `w` sleeps no longer, and is no longer among the waiters
    · change u ∈ ws ↔
        Function.update (Function.update p.phase t .outside) w .permit u = .asleep
      by_cases huw : u = w
      · subst huw
        simp [hnodup.1]
      · rw [Function.update_of_ne huw, update_eq_iff (by simp [ht]) (by simp), ← h.sleepers,
          hsuspended, List.mem_cons]
        simp [huw]
    · change 0 < p.sem.value at hpos
      omega

end Pool

end RobomasterFirmware.Lib
