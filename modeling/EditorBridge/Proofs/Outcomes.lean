/-
How work ends that may fail.  Work in two parts gives a value when both parts do, and
otherwise fails as the first part that fails; steps over a list give one value for each item,
or fail as one of the steps.
-/

namespace EditorBridge

section

variable {α β ε η : Type} {work : Except ε α} {value : α} {e : ε}

theorem eq_ok_of_toOption (h : work.toOption = some value) : work = .ok value := by
  cases work with
  | error e => exact nomatch h
  | ok given => rw [Option.some.inj h]

theorem map_eq_error_iff {change : α → β} : work.map change = .error e ↔ work = .error e := by
  cases work with
  | error given => exact ⟨fun h => Except.error.inj h ▸ rfl, fun h => Except.error.inj h ▸ rfl⟩
  | ok value => exact iff_of_false (fun h => nomatch h) (fun h => nomatch h)

theorem map_eq_ok_iff {change : α → β} {result : β} :
    work.map change = .ok result ↔ ∃ value, work = .ok value ∧ change value = result := by
  cases work with
  | error e => simp [Except.map]
  | ok value => simp [Except.map]

theorem mapError_eq_ok_iff {cause : ε → η} :
    work.mapError cause = .ok value ↔ work = .ok value := by
  cases work with
  | error e => exact iff_of_false (fun h => nomatch h) (fun h => nomatch h)
  | ok given => exact ⟨fun h => Except.ok.inj h ▸ rfl, fun h => Except.ok.inj h ▸ rfl⟩

theorem mapError_eq_error_iff {cause : ε → η} {f : η} :
    work.mapError cause = .error f ↔ ∃ e, work = .error e ∧ cause e = f := by
  cases work with
  | error e =>
      constructor
      · intro h
        exact ⟨e, rfl, Except.error.inj h⟩
      · rintro ⟨given, h, rfl⟩
        rw [Except.error.inj h]
        rfl
  | ok value =>
      refine iff_of_false (fun h => nomatch h) ?_
      rintro ⟨e, h, -⟩
      exact nomatch h

theorem ok_bind (value : α) (next : α → Except ε β) : Except.ok value >>= next = next value := rfl

theorem bind_ok (work : Except ε α) (change : α → β) :
    (work >>= fun value => .ok (change value)) = work.map change := by
  cases work with
  | error e => rfl
  | ok value => rfl

theorem bind_eq_error_iff {next : α → Except ε β} :
    work >>= next = .error e ↔
      work = .error e ∨ ∃ value, work = .ok value ∧ next value = .error e := by
  cases work with
  | error e => simp [bind, Except.bind]
  | ok value => simp [bind, Except.bind]

theorem bind_eq_ok_iff {next : α → Except ε β} {result : β} :
    work >>= next = .ok result ↔ ∃ value, work = .ok value ∧ next value = .ok result := by
  cases work with
  | error e => simp [bind, Except.bind]
  | ok value => simp [bind, Except.bind]

end

section

variable {α β ε : Type} {step : α → Except ε β} {items : List α} {values : List β}

theorem mapM_cons_eq_ok_iff {item : α} :
    (item :: items).mapM step = .ok values ↔
      ∃ first more, step item = .ok first ∧ items.mapM step = .ok more ∧
        values = first :: more := by
  rw [List.mapM_cons]
  constructor
  · intro h
    obtain ⟨first, hfirst, hrest⟩ := bind_eq_ok_iff.mp h
    obtain ⟨more, hmore, hvalues⟩ := bind_eq_ok_iff.mp hrest
    exact ⟨first, more, hfirst, hmore, (Except.ok.inj hvalues).symm⟩
  · rintro ⟨first, more, hfirst, hmore, rfl⟩
    rw [hfirst, hmore]
    rfl

/-- Steps over a list give a list when each of them gives a value. -/
theorem exists_mapM_iff :
    (∃ values, items.mapM step = .ok values) ↔ ∀ item ∈ items, ∃ value, step item = .ok value := by
  induction items with
  | nil => exact ⟨fun _ => List.forall_mem_nil _, fun _ => ⟨[], rfl⟩⟩
  | cons item rest ih =>
      rw [List.forall_mem_cons, ← ih]
      constructor
      · rintro ⟨values, hvalues⟩
        obtain ⟨first, more, hfirst, hmore, -⟩ := mapM_cons_eq_ok_iff.mp hvalues
        exact ⟨⟨first, hfirst⟩, more, hmore⟩
      · rintro ⟨⟨first, hfirst⟩, more, hmore⟩
        exact ⟨first :: more, mapM_cons_eq_ok_iff.mpr ⟨first, more, hfirst, hmore, rfl⟩⟩

theorem mapM_eq_ok_map {given : α → β} (hstep : ∀ item ∈ items, step item = .ok (given item)) :
    items.mapM step = .ok (items.map given) := by
  induction items with
  | nil => rfl
  | cons item rest ih =>
      obtain ⟨hfirst, hrest⟩ := List.forall_mem_cons.mp hstep
      exact mapM_cons_eq_ok_iff.mpr ⟨_, _, hfirst, ih hrest, rfl⟩

/-- Each value of the list comes from a step. -/
theorem exists_of_mem_mapM (hvalues : items.mapM step = .ok values) :
    ∀ value ∈ values, ∃ item ∈ items, step item = .ok value := by
  induction items generalizing values with
  | nil =>
      obtain rfl := Except.ok.inj hvalues
      exact List.forall_mem_nil _
  | cons item rest ih =>
      obtain ⟨first, more, hfirst, hmore, rfl⟩ := mapM_cons_eq_ok_iff.mp hvalues
      intro value hvalue
      rcases List.mem_cons.mp hvalue with rfl | hvalue
      · exact ⟨item, List.mem_cons_self, hfirst⟩
      · obtain ⟨other, hother, hstep⟩ := ih hmore value hvalue
        exact ⟨other, List.mem_cons_of_mem item hother, hstep⟩

/-- Steps over a list fail as one of them does. -/
theorem exists_of_mapM_error {e : ε} (herror : items.mapM step = .error e) :
    ∃ item ∈ items, step item = .error e := by
  induction items with
  | nil => exact nomatch herror
  | cons item rest ih =>
      rw [List.mapM_cons] at herror
      rcases bind_eq_error_iff.mp herror with hfirst | ⟨first, -, herror⟩
      · exact ⟨item, List.mem_cons_self, hfirst⟩
      · rcases bind_eq_error_iff.mp herror with hmore | ⟨more, -, hpure⟩
        · obtain ⟨later, hlater, hstep⟩ := ih hmore
          exact ⟨later, List.mem_cons_of_mem item hlater, hstep⟩
        · exact nomatch hpure

end

end EditorBridge
