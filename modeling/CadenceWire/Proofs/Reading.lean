import Mathlib.Data.List.Forall2

/-!
When readers succeed. A reader that keeps a state yields a result together with the state it leaves;
every way of putting readers together is taken apart here once.
-/
namespace CadenceWire

variable {σ ε α β : Type}

theorem bind_eq_ok {first : Except ε α} {next : α → Except ε β} {result : β} :
    (first >>= next) = .ok result ↔ ∃ value, first = .ok value ∧ next value = .ok result := by
  cases first <;> simp [bind, Except.bind]

theorem map_eq_ok {first : Except ε α} {f : α → β} {result : β} :
    f <$> first = .ok result ↔ ∃ value, first = .ok value ∧ f value = result := by
  cases first <;> simp [Functor.map, Except.map]

theorem mapError_eq_ok {ε' : Type} {first : Except ε α} {f : ε → ε'} {result : α} :
    first.mapError f = .ok result ↔ first = .ok result := by
  cases first <;> simp [Except.mapError]

theorem mapError_map {ε' : Type} {first : Except ε α} {f : α → β} {g : ε → ε'} :
    (f <$> first).mapError g = f <$> first.mapError g := by
  cases first <;> rfl

theorem pure_eq_ok {value result : α} :
    (pure value : Except ε α) = .ok result ↔ value = result := by
  simp [pure, Except.pure]

theorem throw_ne_ok {error : ε} {result : α} : (throw error : Except ε α) ≠ .ok result := by
  simp [throw, throwThe, MonadExceptOf.throw]

theorem mapM_eq_ok {f : α → Except ε β} {items : List α} {results : List β} :
    items.mapM f = .ok results ↔
      List.Forall₂ (fun item result => f item = .ok result) items results := by
  induction items generalizing results with
  | nil => cases results <;> simp [pure, Except.pure]
  | cons item items ih =>
    simp only [List.mapM_cons, bind_eq_ok, pure_eq_ok, List.forall₂_cons_left_iff, ← ih]
    exact ⟨fun ⟨first, head, others, tail, same⟩ => ⟨first, others, head, tail, same.symm⟩,
      fun ⟨first, others, head, tail, same⟩ => ⟨first, head, others, tail, same.symm⟩⟩

/-- The failure is that of the first item that fails. -/
theorem mapM_eq_error {f : α → Except ε β} {items : List α} {failure : ε} :
    items.mapM f = .error failure ↔ ∃ front item back results, items = front ++ item :: back ∧
      List.Forall₂ (fun item result => f item = .ok result) front results ∧
        f item = .error failure := by
  induction items with
  | nil => simp [pure, Except.pure]
  | cons head rest ih =>
    rw [List.mapM_cons]
    cases first : f head with
    | error other =>
      change Except.error other = Except.error failure ↔ _
      rw [Except.error.injEq]
      constructor
      · rintro rfl
        exact ⟨[], head, rest, [], rfl, .nil, first⟩
      · rintro ⟨front, item, back, results, split, read, failed⟩
        cases read with
        | nil =>
          obtain ⟨rfl, rfl⟩ := List.cons.inj split
          exact Except.error.inj (first.symm.trans failed)
        | cons ok =>
          obtain ⟨rfl, -⟩ := List.cons.inj split
          cases first.symm.trans ok
    | ok result =>
      have behind : (do
          let others ← rest.mapM f
          return result :: others : Except ε (List β)) = .error failure ↔
            rest.mapM f = .error failure := by
        cases rest.mapM f <;> simp [bind, Except.bind, pure, Except.pure]
      refine behind.trans (ih.trans ⟨?_, ?_⟩)
      · rintro ⟨front, item, back, results, rfl, read, failed⟩
        exact ⟨head :: front, item, back, result :: results, rfl, .cons first read, failed⟩
      · rintro ⟨front, item, back, results, split, read, failed⟩
        cases read with
        | nil =>
          obtain ⟨rfl, -⟩ := List.cons.inj split
          cases first.symm.trans failed
        | @cons _ _ front results _ read =>
          exact ⟨front, item, back, results, (List.cons.inj split).2, read, failed⟩

theorem exists_mem_of_forall₂ {R : α → β → Prop} {items : List α} {results : List β}
    (related : List.Forall₂ R items results) {item : α} (member : item ∈ items) :
    ∃ result ∈ results, R item result := by
  induction related with
  | nil => cases member
  | cons head _ ih =>
    rcases List.mem_cons.1 member with rfl | inside
    · exact ⟨_, List.mem_cons_self, head⟩
    · obtain ⟨result, listed, holds⟩ := ih inside
      exact ⟨result, List.mem_cons_of_mem _ listed, holds⟩

theorem exists_forall₂ {R : α → β → Prop} {p : β → Prop} {items : List α}
    (each : ∀ item ∈ items, ∃ result, R item result ∧ p result) :
    ∃ results, List.Forall₂ R items results ∧ ∀ result ∈ results, p result := by
  induction items with
  | nil => exact ⟨[], .nil, by simp⟩
  | cons item items ih =>
    obtain ⟨⟨result, head, holds⟩, others⟩ := List.forall_mem_cons.1 each
    obtain ⟨results, tail, hold⟩ := ih others
    exact ⟨result :: results, .cons head tail, List.forall_mem_cons.2 ⟨holds, hold⟩⟩

/-- Induction along a list that keeps to a size: each of its items is smaller. -/
@[elab_as_elim]
theorem items_induction [SizeOf α] {p : List α → Prop} {bound : Nat} (none : p [])
    (more : ∀ item items, sizeOf item < bound → p items → p (item :: items)) {items : List α}
    (small : sizeOf items ≤ bound) : p items := by
  induction items with
  | nil => exact none
  | cons item items ih =>
    rw [List.cons.sizeOf_spec] at small
    exact more item items (by omega) (ih (by omega))

/-- The reading succeeds: it gives the result and turns the state before into the one after. -/
def Yields (reading : StateT σ (Except ε) α) (before : σ) (result : α) (after : σ) : Prop :=
  reading.run before = .ok (result, after)

@[simp] theorem yields_pure {value result : α} {before after : σ} :
    Yields (pure value : StateT σ (Except ε) α) before result after ↔
      result = value ∧ after = before := by
  simp only [Yields, StateT.run_pure, pure_eq_ok, Prod.mk.injEq]
  exact and_congr eq_comm eq_comm

@[simp] theorem yields_bind {first : StateT σ (Except ε) α} {next : α → StateT σ (Except ε) β}
    {before after : σ} {result : β} :
    Yields (first >>= next) before result after ↔
      ∃ value between, Yields first before value between ∧
        Yields (next value) between result after := by
  simp only [Yields, StateT.run_bind, bind_eq_ok, Prod.exists]

@[simp] theorem yields_map {first : StateT σ (Except ε) α} {f : α → β} {before after : σ}
    {result : β} :
    Yields (f <$> first) before result after ↔
      ∃ value, Yields first before value after ∧ f value = result := by
  simp only [Yields, StateT.run_map, map_eq_ok, Prod.exists, Prod.mk.injEq]
  exact ⟨fun ⟨value, _, found, same, rfl⟩ => ⟨value, found, same⟩,
    fun ⟨value, found, same⟩ => ⟨value, after, found, same, rfl⟩⟩

@[simp] theorem yields_lift {reading : Except ε α} {before after : σ} {result : α} :
    Yields (liftM reading : StateT σ (Except ε) α) before result after ↔
      reading = .ok result ∧ after = before := by
  cases reading <;>
    simp [Yields, liftM, monadLift, MonadLift.monadLift, StateT.lift, StateT.run, bind, Except.bind,
      pure, Except.pure, eq_comm]

theorem yields_lift_bind {part : Except ε α} {next : α → StateT σ (Except ε) β} {before after : σ}
    {result : β} :
    Yields (liftM part >>= next) before result after ↔
      ∃ value, part = .ok value ∧ Yields (next value) before result after := by
  simp only [yields_bind, yields_lift]
  exact ⟨fun ⟨value, _, ⟨accepted, rfl⟩, rest⟩ => ⟨value, accepted, rest⟩,
    fun ⟨value, accepted, rest⟩ => ⟨value, before, ⟨accepted, rfl⟩, rest⟩⟩

theorem run_lift_map {step : Except ε α} {f : α → β} {before : σ} :
    (do return f (← step) : StateT σ (Except ε) β).run before =
      (fun value => (f value, before)) <$> step := by
  cases step <;> rfl

theorem liftM_ok {value : α} :
    (liftM (Except.ok value : Except ε α) : StateT σ (Except ε) α) = pure value := rfl

@[simp] theorem not_yields_throw {error : ε} {before after : σ} {result : α} :
    ¬ Yields (throw error : StateT σ (Except ε) α) before result after := by
  simp [Yields, throw, throwThe, MonadExceptOf.throw, StateT.lift, StateT.run, bind, Except.bind]

@[simp] theorem yields_get {before after result : σ} :
    Yields (get : StateT σ (Except ε) σ) before result after ↔
      result = before ∧ after = before := by
  simp [Yields, get, getThe, MonadStateOf.get, StateT.get, StateT.run, pure, Except.pure, eq_comm]

@[simp] theorem yields_modify {f : σ → σ} {before after : σ} {result : PUnit} :
    Yields (modify f : StateT σ (Except ε) PUnit) before result after ↔ after = f before := by
  simp [Yields, modify, modifyGet, MonadStateOf.modifyGet, StateT.modifyGet, StateT.run, pure,
    Except.pure, eq_comm]

/-! Steps that succeed make up a reading that does. -/
section steps

variable {before between after : σ}

theorem Yields.pure (value : α) (before : σ) :
    Yields (pure value : StateT σ (Except ε) α) before value before :=
  yields_pure.2 ⟨rfl, rfl⟩

theorem Yields.lift {reading : Except ε α} {result : α} (read : reading = .ok result)
    (before : σ) : Yields (liftM reading : StateT σ (Except ε) α) before result before :=
  yields_lift.2 ⟨read, rfl⟩

theorem Yields.modify (f : σ → σ) (before : σ) :
    Yields (modify f : StateT σ (Except ε) PUnit) before .unit (f before) :=
  yields_modify.2 rfl

theorem Yields.bind {first : StateT σ (Except ε) α} {next : α → StateT σ (Except ε) β} {value : α}
    {result : β} (read : Yields first before value between)
    (rest : Yields (next value) between result after) :
    Yields (first >>= next) before result after :=
  yields_bind.2 ⟨value, between, read, rest⟩

theorem Yields.map {first : StateT σ (Except ε) α} {value : α}
    (read : Yields first before value after) (f : α → β) :
    Yields (f <$> first) before (f value) after :=
  yields_map.2 ⟨value, read, rfl⟩

end steps

/-- From a state in which the invariant is kept, the reading leads to another, and whatever it
yields has the property. -/
def Ensures (kept : σ → Prop) (p : α → Prop) (reading : StateT σ (Except ε) α) : Prop :=
  ∀ before result after, kept before → Yields reading before result after → p result ∧ kept after

section properties

variable {kept : σ → Prop} {p : α → Prop} {q : β → Prop}

theorem Ensures.pure {value : α} (holds : p value) :
    Ensures kept p (pure value : StateT σ (Except ε) α) := by
  intro before result after start read
  obtain ⟨rfl, rfl⟩ := yields_pure.1 read
  exact ⟨holds, start⟩

theorem Ensures.throw {error : ε} : Ensures kept p (throw error : StateT σ (Except ε) α) :=
  fun _ _ _ _ read => absurd read not_yields_throw

theorem Ensures.get : Ensures kept kept (get : StateT σ (Except ε) σ) := by
  intro before result after start read
  obtain ⟨rfl, rfl⟩ := yields_get.1 read
  exact ⟨start, start⟩

theorem Ensures.imp {r : α → Prop} {reading : StateT σ (Except ε) α}
    (ensured : Ensures kept p reading) (weaker : ∀ value, p value → r value) :
    Ensures kept r reading := by
  intro before result after start read
  obtain ⟨holds, done⟩ := ensured before result after start read
  exact ⟨weaker result holds, done⟩

theorem Ensures.bind {first : StateT σ (Except ε) α} {next : α → StateT σ (Except ε) β}
    (head : Ensures kept p first) (tail : ∀ value, p value → Ensures kept q (next value)) :
    Ensures kept q (first >>= next) := by
  intro before result after start read
  obtain ⟨value, between, one, more⟩ := yields_bind.1 read
  obtain ⟨holds, middle⟩ := head before value between start one
  exact tail value holds between result after middle more

/-- Of what a step without a state gives, it is known that the step gives it. -/
theorem Ensures.step {first : Except ε α} {next : α → StateT σ (Except ε) β}
    (tail : ∀ value, first = .ok value → Ensures kept q (next value)) :
    Ensures kept q (liftM first >>= next) := by
  intro before result after start read
  obtain ⟨value, accepted, more⟩ := yields_lift_bind.1 read
  exact tail value accepted before result after start more

theorem Ensures.lift {reading : Except ε α} (each : ∀ value, reading = .ok value → p value) :
    Ensures kept p (liftM reading : StateT σ (Except ε) α) := by
  intro before value after start read
  obtain ⟨accepted, rfl⟩ := yields_lift.1 read
  exact ⟨each value accepted, start⟩

/-- Of any reading it is known that it yields what it yields. -/
theorem Ensures.any (reading : StateT σ (Except ε) α) :
    Ensures (fun _ => True) (fun _ => True) reading :=
  fun _ _ _ _ _ => ⟨trivial, trivial⟩

/-- What follows need only be the same for what the reading yields. -/
theorem Ensures.bind_congr {reading : StateT σ (Except ε) α} {f g : α → StateT σ (Except ε) β}
    (ensured : Ensures (fun _ => True) p reading) (same : ∀ value, p value → f value = g value) :
    reading >>= f = reading >>= g := by
  funext before
  change (reading before >>= fun yielded => f yielded.1 yielded.2) =
    (reading before >>= fun yielded => g yielded.1 yielded.2)
  cases read : reading before with
  | error failure => rfl
  | ok yielded =>
    obtain ⟨holds, -⟩ := ensured before yielded.1 yielded.2 trivial read
    change f yielded.1 yielded.2 = g yielded.1 yielded.2
    rw [same yielded.1 holds]

end properties

/-- From two states in which the invariant is kept, the readings lead to two others, and whatever
they yield is related. -/
def Agree {γ δ : Type} (kept : σ → Prop) (R : γ → δ → Prop) (first : StateT σ (Except ε) γ)
    (second : StateT σ (Except ε) δ) : Prop :=
  ∀ before result after before' result' after', kept before → kept before' →
    Yields first before result after → Yields second before' result' after' →
      R result result' ∧ kept after ∧ kept after'

section pairs

variable {γ δ : Type} {kept : σ → Prop} {R : α → γ → Prop} {S : β → δ → Prop}

theorem Agree.pure {a : α} {c : γ} (related : R a c) :
    Agree kept R (pure a : StateT σ (Except ε) α) (pure c) := by
  intro before result after before' result' after' start start' read read'
  obtain ⟨rfl, rfl⟩ := yields_pure.1 read
  obtain ⟨rfl, rfl⟩ := yields_pure.1 read'
  exact ⟨related, start, start'⟩

theorem Agree.throw_left {error : ε} (second : StateT σ (Except ε) γ) :
    Agree kept R (throw error) second :=
  fun _ _ _ _ _ _ _ _ read _ => absurd read not_yields_throw

theorem Agree.throw_right {error : ε} (first : StateT σ (Except ε) α) :
    Agree kept R first (throw error) :=
  fun _ _ _ _ _ _ _ _ _ read => absurd read not_yields_throw

theorem Agree.bind {first : StateT σ (Except ε) α} {second : StateT σ (Except ε) γ}
    {f : α → StateT σ (Except ε) β} {g : γ → StateT σ (Except ε) δ}
    (head : Agree kept R first second) (tail : ∀ a c, R a c → Agree kept S (f a) (g c)) :
    Agree kept S (first >>= f) (second >>= g) := by
  intro before result after before' result' after' start start' read read'
  obtain ⟨a, between, one, more⟩ := yields_bind.1 read
  obtain ⟨c, between', one', more'⟩ := yields_bind.1 read'
  obtain ⟨related, middle, middle'⟩ := head _ a _ _ c _ start start' one one'
  exact tail a c related _ _ _ _ _ _ middle middle' more more'

/-- A step without a state gives the same to both. -/
theorem Agree.step {step : Except ε α} {f : α → StateT σ (Except ε) β}
    {g : α → StateT σ (Except ε) δ} (tail : ∀ a, step = .ok a → Agree kept S (f a) (g a)) :
    Agree kept S (liftM step >>= f) (liftM step >>= g) := by
  intro before result after before' result' after' start start' read read'
  obtain ⟨a, accepted, more⟩ := yields_lift_bind.1 read
  obtain ⟨c, accepted', more'⟩ := yields_lift_bind.1 read'
  obtain rfl := Except.ok.inj (accepted.symm.trans accepted')
  exact tail a accepted _ _ _ _ _ _ start start' more more'

theorem Agree.of_ensures {p : α → Prop} {q : γ → Prop} {first : StateT σ (Except ε) α}
    {second : StateT σ (Except ε) γ} (one : Ensures kept p first) (other : Ensures kept q second)
    (related : ∀ a c, p a → q c → R a c) : Agree kept R first second := by
  intro before result after before' result' after' start start' read read'
  obtain ⟨holds, done⟩ := one before result after start read
  obtain ⟨holds', done'⟩ := other before' result' after' start' read'
  exact ⟨related result result' holds holds', done, done'⟩

end pairs

/-- Whatever the step fails with has the property. -/
def FailsOnly (p : ε → Prop) (step : Except ε α) : Prop :=
  ∀ failure, step = .error failure → p failure

/-- Whatever the reading stops at has the property, whichever state it starts from. -/
def StopsOnly (p : ε → Prop) (reading : StateT σ (Except ε) α) : Prop :=
  ∀ before, FailsOnly p (reading.run before)

section failures

variable {p : ε → Prop}

@[simp] theorem failsOnly_ok {value : α} : FailsOnly p (.ok value : Except ε α) :=
  fun _ same => nomatch same

@[simp] theorem failsOnly_error {failure : ε} :
    FailsOnly p (.error failure : Except ε α) ↔ p failure :=
  ⟨fun only => only failure rfl, fun holds _ same => Except.error.inj same ▸ holds⟩

@[simp] theorem failsOnly_pure {value : α} : FailsOnly p (pure value : Except ε α) := failsOnly_ok

@[simp] theorem failsOnly_throw {failure : ε} :
    FailsOnly p (throw failure : Except ε α) ↔ p failure := failsOnly_error

@[simp] theorem failsOnly_bind {first : Except ε α} {next : α → Except ε β} :
    FailsOnly p (first >>= next) ↔
      FailsOnly p first ∧ ∀ value, first = .ok value → FailsOnly p (next value) := by
  cases first with
  | error failure => simp [bind, Except.bind]
  | ok value => simp [bind, Except.bind]

@[simp] theorem failsOnly_map {first : Except ε α} {f : α → β} :
    FailsOnly p (f <$> first) ↔ FailsOnly p first := by
  cases first <;> simp [Functor.map, Except.map]

theorem failsOnly_mapM {f : α → Except ε β} {items : List α}
    (each : ∀ item ∈ items, FailsOnly p (f item)) : FailsOnly p (items.mapM f) := by
  induction items with
  | nil => exact failsOnly_pure
  | cons item items ih =>
    obtain ⟨head, tail⟩ := List.forall_mem_cons.1 each
    rw [List.mapM_cons]
    exact failsOnly_bind.2 ⟨head, fun _ _ => failsOnly_bind.2 ⟨ih tail, fun _ _ => failsOnly_pure⟩⟩

theorem StopsOnly.pure (value : α) : StopsOnly p (pure value : StateT σ (Except ε) α) :=
  fun _ => failsOnly_pure

theorem StopsOnly.throw_bind {failure : ε} {next : α → StateT σ (Except ε) β} (holds : p failure) :
    StopsOnly p (throw failure >>= next) :=
  fun _ => failsOnly_error.2 holds

theorem StopsOnly.throw {failure : ε} (holds : p failure) :
    StopsOnly p (throw failure : StateT σ (Except ε) α) := by
  intro before
  exact failsOnly_error.2 holds

theorem StopsOnly.bind {first : StateT σ (Except ε) α} {next : α → StateT σ (Except ε) β}
    (head : StopsOnly p first) (tail : ∀ value, StopsOnly p (next value)) :
    StopsOnly p (first >>= next) := by
  intro before
  rw [StateT.run_bind]
  exact failsOnly_bind.2 ⟨head before, fun yielded _ => tail yielded.1 yielded.2⟩

theorem StopsOnly.lift {step : Except ε α} (only : FailsOnly p step) :
    StopsOnly p (liftM step : StateT σ (Except ε) α) := by
  intro before
  cases step with
  | error failure => exact failsOnly_error.2 (failsOnly_error.1 only)
  | ok value => exact failsOnly_ok

/-- A step without a state is known to have succeeded wherever reading goes on behind it. -/
theorem StopsOnly.step {first : Except ε α} {next : α → StateT σ (Except ε) β}
    (head : FailsOnly p first) (tail : ∀ value, first = .ok value → StopsOnly p (next value)) :
    StopsOnly p (liftM first >>= next) := by
  cases first with
  | error failure => exact fun before => failsOnly_error.2 (failsOnly_error.1 head)
  | ok value =>
    rw [liftM_ok, pure_bind]
    exact tail value rfl

theorem StopsOnly.map {reading : StateT σ (Except ε) α} (only : StopsOnly p reading) (f : α → β) :
    StopsOnly p (f <$> reading) := by
  rw [map_eq_pure_bind]
  exact only.bind fun value => .pure _

theorem StopsOnly.get : StopsOnly p (get : StateT σ (Except ε) σ) := fun _ => failsOnly_pure

theorem StopsOnly.modify (f : σ → σ) : StopsOnly p (modify f : StateT σ (Except ε) PUnit) :=
  fun _ => failsOnly_pure

theorem StopsOnly.run' {reading : StateT σ (Except ε) α} (only : StopsOnly p reading)
    (before : σ) : FailsOnly p (reading.run' before) :=
  failsOnly_map.2 (only before)

end failures

theorem run'_eq_ok {reading : StateT σ (Except ε) α} {before : σ} {result : α} :
    reading.run' before = .ok result ↔ ∃ after, Yields reading before result after := by
  simp only [StateT.run', map_eq_ok, Prod.exists, Yields, StateT.run]
  exact ⟨fun ⟨_, after, found, same⟩ => ⟨after, same ▸ found⟩, fun ⟨after, found⟩ =>
    ⟨result, after, found, rfl⟩⟩

end CadenceWire
