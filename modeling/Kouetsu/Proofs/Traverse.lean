import Mathlib.Data.List.Forall2
/-!
# Traversals that may fail

A traversal of a list answers an element for each element, or fails as a whole.
-/

namespace Kouetsu

variable {α β : Type} {f : α → Option β} {xs : List α}

theorem mapM_cons_eq_some {x : α} {zs : List β} :
    (x :: xs).mapM f = some zs ↔ ∃ y ys, f x = some y ∧ xs.mapM f = some ys ∧ y :: ys = zs := by
  simp only [List.mapM_cons, Option.pure_def, Option.bind_eq_bind, Option.bind_eq_some_iff,
    Option.some.injEq]
  tauto

theorem mapM_concat_eq_some {x : α} {zs : List β} : (xs ++ [x]).mapM f = some zs ↔
    ∃ ys y, xs.mapM f = some ys ∧ f x = some y ∧ zs = ys ++ [y] := by
  simp only [List.mapM_append, List.mapM_cons, List.mapM_nil, Option.pure_def, Option.bind_eq_bind,
    Option.bind_eq_some_iff, Option.some.injEq]
  constructor
  · rintro ⟨ys, hys, _, ⟨y, hy, _, rfl, rfl⟩, rfl⟩
    exact ⟨ys, y, hys, hy, rfl⟩
  · rintro ⟨ys, y, hys, hy, rfl⟩
    exact ⟨ys, hys, [y], ⟨y, hy, [], rfl, rfl⟩, rfl⟩

theorem length_of_mapM {ys : List β} (h : xs.mapM f = some ys) : ys.length = xs.length := by
  induction xs generalizing ys with
  | nil =>
      rw [List.mapM_nil, Option.pure_def, Option.some.injEq] at h
      rw [← h]
      rfl
  | cons x xs ih =>
      obtain ⟨y, ys, _, hys, rfl⟩ := mapM_cons_eq_some.mp h
      rw [List.length_cons, List.length_cons, ih hys]

theorem mem_of_mapM {ys : List β} (h : xs.mapM f = some ys) {y : β} (hy : y ∈ ys) :
    ∃ x ∈ xs, f x = some y := by
  induction xs generalizing ys with
  | nil =>
      rw [List.mapM_nil, Option.pure_def, Option.some.injEq] at h
      simp [← h] at hy
  | cons x xs ih =>
      obtain ⟨z, zs, hz, hzs, rfl⟩ := mapM_cons_eq_some.mp h
      rcases List.mem_cons.mp hy with rfl | hy
      · exact ⟨x, List.mem_cons_self, hz⟩
      · obtain ⟨x', hx', hfx'⟩ := ih hzs hy
        exact ⟨x', List.mem_cons_of_mem x hx', hfx'⟩

/-- What holds of all that a traversal collects is told of the elements it starts from. -/
theorem forall_mem_iff_of_mapM {ys : List β} {P : β → Prop} (h : xs.mapM f = some ys) :
    (∀ y ∈ ys, P y) ↔ ∀ x ∈ xs, ∃ y, f x = some y ∧ P y := by
  induction xs generalizing ys with
  | nil =>
      rw [List.mapM_nil, Option.pure_def, Option.some.injEq] at h
      simp [← h]
  | cons x xs ih =>
      obtain ⟨y, ys, hy, hys, rfl⟩ := mapM_cons_eq_some.mp h
      simp only [List.forall_mem_cons, ih hys, hy, Option.some.injEq, exists_eq_left']

theorem isSome_mapM (h : ∀ x ∈ xs, (f x).isSome) : (xs.mapM f).isSome := by
  induction xs with
  | nil => rfl
  | cons x xs ih =>
      obtain ⟨y, hy⟩ := Option.isSome_iff_exists.mp (h x List.mem_cons_self)
      obtain ⟨ys, hys⟩ := Option.isSome_iff_exists.mp
        (ih fun w hw => h w (List.mem_cons_of_mem x hw))
      rw [mapM_cons_eq_some.mpr ⟨y, ys, hy, hys, rfl⟩]
      rfl

theorem isSome_mapM_iff : (xs.mapM f).isSome ↔ ∀ x ∈ xs, (f x).isSome := by
  refine ⟨fun h => ?_, isSome_mapM⟩
  induction xs with
  | nil => simp
  | cons x xs ih =>
      obtain ⟨zs, hzs⟩ := Option.isSome_iff_exists.mp h
      obtain ⟨y, ys, hy, hys, _⟩ := mapM_cons_eq_some.mp hzs
      refine List.forall_mem_cons.mpr ⟨Option.isSome_iff_exists.mpr ⟨y, hy⟩, ih ?_⟩
      exact Option.isSome_iff_exists.mpr ⟨ys, hys⟩

theorem mapM_eq_none_iff : xs.mapM f = none ↔ ∃ x ∈ xs, f x = none := by
  rw [← Option.not_isSome_iff_eq_none, isSome_mapM_iff]
  simp only [not_forall, exists_prop, Option.not_isSome_iff_eq_none]

/-- What a traversal collects is collected by any way of filling its gaps. -/
theorem flatten_of_mapM {g : α → Option (List β)} {yss : List (List β)}
    (h : xs.mapM g = some yss) : yss.flatten = xs.flatMap fun x => (g x).getD [] := by
  induction xs generalizing yss with
  | nil =>
      rw [List.mapM_nil, Option.pure_def, Option.some.injEq] at h
      rw [← h]
      rfl
  | cons x xs ih =>
      obtain ⟨ys, zss, hys, hzss, rfl⟩ := mapM_cons_eq_some.mp h
      rw [List.flatten_cons, List.flatMap_cons, ih hzss, hys, Option.getD_some]

theorem foldlM_invariant {P : β → Prop} {step : β → α → Option β} {init result : β}
    (h : xs.foldlM step init = some result) (hinit : P init)
    (hstep : ∀ b x b', P b → x ∈ xs → step b x = some b' → P b') : P result := by
  induction xs generalizing init with
  | nil =>
      rw [List.foldlM_nil, Option.pure_def, Option.some.injEq] at h
      rwa [← h]
  | cons x xs ih =>
      rw [List.foldlM_cons] at h
      obtain ⟨b, hb, h⟩ := Option.bind_eq_some_iff.mp h
      apply ih h (hstep _ _ _ hinit List.mem_cons_self hb)
      exact fun b x b' hP hx => hstep b x b' hP (List.mem_cons_of_mem _ hx)

/-- A fold that may fail does not where no step fails, and steps fail by what they are given. -/
theorem isSome_foldlM_iff {step : β → α → Option β} {P : α → Prop}
    (hstep : ∀ b, ∀ x ∈ xs, (step b x).isSome ↔ P x) (init : β) :
    (xs.foldlM step init).isSome ↔ ∀ x ∈ xs, P x := by
  induction xs generalizing init with
  | nil => simp
  | cons x xs ih =>
      have htail (b : β) := ih (fun b y hy => hstep b y (List.mem_cons_of_mem x hy)) b
      rw [List.forall_mem_cons, ← hstep init x List.mem_cons_self, List.foldlM_cons]
      cases hnext : step init x with
      | none => simp
      | some next => simpa using htail next

theorem bind_eq_ok {ε : Type} {x : Except ε α} {g : α → Except ε β} {b : β} :
    (x >>= g) = .ok b ↔ ∃ a, x = .ok a ∧ g a = .ok b := by
  cases x with
  | error e => simp [bind, Except.bind]
  | ok a => simp [bind, Except.bind]

theorem map_eq_ok {ε : Type} {x : Except ε α} {g : α → β} {b : β} :
    x.map g = .ok b ↔ ∃ a, x = .ok a ∧ g a = b := by
  cases x with
  | error e => simp [Except.map]
  | ok a => simp [Except.map]

theorem bind_eq_error {ε : Type} {x : Except ε α} {g : α → Except ε β} {e : ε} :
    (x >>= g) = .error e ↔ x = .error e ∨ ∃ a, x = .ok a ∧ g a = .error e := by
  cases x with
  | error e' => simp [bind, Except.bind]
  | ok a => simp [bind, Except.bind]

theorem map_eq_error {ε : Type} {x : Except ε α} {g : α → β} {e : ε} :
    x.map g = .error e ↔ x = .error e := by
  cases x with
  | error e' => simp [Except.map]
  | ok a => simp [Except.map]

theorem toOption_eq_some {ε : Type} {x : Except ε α} {a : α} : x.toOption = some a ↔ x = .ok a := by
  cases x with
  | error e => simp [Except.toOption]
  | ok a => simp [Except.toOption]

theorem foldlM_invariant_ok {ε : Type} {P : β → Prop} {step : β → α → Except ε β} {init result : β}
    (h : xs.foldlM step init = .ok result) (hinit : P init)
    (hstep : ∀ b x b', P b → x ∈ xs → step b x = .ok b' → P b') : P result := by
  induction xs generalizing init with
  | nil => exact Except.ok.inj h ▸ hinit
  | cons x xs ih =>
      rw [List.foldlM_cons] at h
      obtain ⟨b, hb, h⟩ := bind_eq_ok.mp h
      apply ih h (hstep _ _ _ hinit List.mem_cons_self hb)
      exact fun b x b' hP hx => hstep b x b' hP (List.mem_cons_of_mem _ hx)

/-- Whether a fold ends well, where no step looks at what it changes to tell. -/
theorem exists_foldlM_ok_iff {ε : Type} {step : β → α → Except ε β} {P : α → Prop}
    (hstep : ∀ b, ∀ x ∈ xs, (∃ b', step b x = .ok b') ↔ P x) (init : β) :
    (∃ result, xs.foldlM step init = .ok result) ↔ ∀ x ∈ xs, P x := by
  induction xs generalizing init with
  | nil => exact ⟨fun _ _ hx => absurd hx List.not_mem_nil, fun _ => ⟨init, rfl⟩⟩
  | cons x xs ih =>
      have htail (b : β) := ih (fun b y hy => hstep b y (List.mem_cons_of_mem x hy)) b
      rw [List.forall_mem_cons, ← hstep init x List.mem_cons_self]
      constructor
      · rintro ⟨result, hresult⟩
        rw [List.foldlM_cons] at hresult
        obtain ⟨b, hb, hresult⟩ := bind_eq_ok.mp hresult
        exact ⟨⟨b, hb⟩, (htail b).mp ⟨result, hresult⟩⟩
      · rintro ⟨⟨b, hb⟩, hxs⟩
        obtain ⟨result, hresult⟩ := (htail b).mpr hxs
        exact ⟨result, by rw [List.foldlM_cons]; exact bind_eq_ok.mpr ⟨b, hb, hresult⟩⟩

theorem foldlM_filter {ε : Type} {step : β → α → Except ε β} {p : α → Bool}
    (h : ∀ b, ∀ x ∈ xs, p x = false → step b x = .ok b) (init : β) :
    (xs.filter p).foldlM step init = xs.foldlM step init := by
  induction xs generalizing init with
  | nil => rfl
  | cons x xs ih =>
      have htail (b : β) := ih (fun b y hy => h b y (List.mem_cons_of_mem x hy)) b
      rw [List.foldlM_cons]
      cases hx : p x with
      | false =>
          rw [List.filter_cons_of_neg (by simp [hx]), htail, h init x List.mem_cons_self hx]
          rfl
      | true =>
          rw [List.filter_cons_of_pos hx, List.foldlM_cons]
          exact bind_congr htail

theorem map_foldlM {γ ε : Type} {step : β → α → Except ε β} {step' : γ → α → Except ε γ}
    {g : β → γ} (h : ∀ b x, (step b x).map g = step' (g b) x) (init : β) :
    (xs.foldlM step init).map g = xs.foldlM step' (g init) := by
  induction xs generalizing init with
  | nil => rfl
  | cons x xs ih =>
      rw [List.foldlM_cons, List.foldlM_cons, ← h]
      cases step init x with
      | error e => rfl
      | ok b => exact ih b

theorem exists_step_error {ε : Type} {step : β → α → Except ε β} {init : β} {e : ε}
    (h : xs.foldlM step init = .error e) : ∃ b, ∃ x ∈ xs, step b x = .error e := by
  induction xs generalizing init with
  | nil => contradiction
  | cons x xs ih =>
      rw [List.foldlM_cons] at h
      cases hnext : step init x with
      | error e' =>
          rw [hnext] at h
          obtain rfl : e' = e := Except.error.inj h
          exact ⟨init, x, List.mem_cons_self, hnext⟩
      | ok next =>
          rw [hnext] at h
          obtain ⟨b, y, hy, hfails⟩ := ih h
          exact ⟨b, y, List.mem_cons_of_mem x hy, hfails⟩

theorem mapError_eq_ok {ε ε' : Type} {x : Except ε α} {g : ε → ε'} {a : α} :
    x.mapError g = .ok a ↔ x = .ok a := by
  cases x with
  | error e => simp [Except.mapError]
  | ok a => simp [Except.mapError]

theorem mapError_eq_error {ε ε' : Type} {x : Except ε α} {g : ε → ε'} {e' : ε'} :
    x.mapError g = .error e' ↔ ∃ e, x = .error e ∧ g e = e' := by
  cases x with
  | error e => simp [Except.mapError]
  | ok a => simp [Except.mapError]

theorem exists_eq_ok {ε : Type} {x : Except ε α} (h : x.toOption.isSome = true) :
    ∃ a, x = .ok a := by
  cases x with
  | error e => simp [Except.toOption] at h
  | ok a => exact ⟨a, rfl⟩

theorem mem_of_mapM_ok {ε : Type} {g : α → Except ε β} {ys : List β} (h : xs.mapM g = .ok ys)
    {y : β} (hy : y ∈ ys) : ∃ x ∈ xs, g x = .ok y := by
  induction xs generalizing ys with
  | nil =>
      rw [List.mapM_nil] at h
      simp [← Except.ok.inj h] at hy
  | cons x xs ih =>
      rw [List.mapM_cons] at h
      obtain ⟨z, hz, h⟩ := bind_eq_ok.mp h
      obtain ⟨zs, hzs, h⟩ := bind_eq_ok.mp h
      rw [← Except.ok.inj h] at hy
      rcases List.mem_cons.mp hy with rfl | hy
      · exact ⟨x, List.mem_cons_self, hz⟩
      · obtain ⟨x', hx', hgx'⟩ := ih hzs hy
        exact ⟨x', List.mem_cons_of_mem x hx', hgx'⟩

/-- A traversal that ends well has a result for each element, in their order. -/
theorem forall₂_of_mapM_ok {ε : Type} {g : α → Except ε β} {ys : List β}
    (h : xs.mapM g = .ok ys) : List.Forall₂ (fun x y => g x = .ok y) xs ys := by
  induction xs generalizing ys with
  | nil =>
      rw [List.mapM_nil] at h
      rw [← Except.ok.inj h]
      exact .nil
  | cons x xs ih =>
      rw [List.mapM_cons] at h
      obtain ⟨z, hz, h⟩ := bind_eq_ok.mp h
      obtain ⟨zs, hzs, h⟩ := bind_eq_ok.mp h
      rw [← Except.ok.inj h]
      exact .cons hz (ih hzs)

theorem exists_mapM_ok {ε : Type} {g : α → Except ε β} (h : ∀ x ∈ xs, ∃ y, g x = .ok y) :
    ∃ ys, xs.mapM g = .ok ys := by
  induction xs with
  | nil => exact ⟨[], rfl⟩
  | cons x xs ih =>
      obtain ⟨⟨y, hy⟩, hxs⟩ := List.forall_mem_cons.mp h
      obtain ⟨ys, hys⟩ := ih hxs
      exact ⟨y :: ys, by rw [List.mapM_cons, hy, hys]; rfl⟩

theorem exists_of_forall₂_append_cons {R : α → β → Prop} {before after : List α} {x : α}
    {ys : List β} (h : List.Forall₂ R (before ++ x :: after) ys) :
    ∃ before' y after', ys = before' ++ y :: after' ∧ List.Forall₂ R before before' ∧ R x y ∧
      List.Forall₂ R after after' := by
  induction before generalizing ys with
  | nil =>
      obtain ⟨y, after', hxy, hafter, rfl⟩ := List.forall₂_cons_left_iff.mp h
      exact ⟨[], y, after', rfl, .nil, hxy, hafter⟩
  | cons w before ih =>
      obtain ⟨z, zs, hwz, hzs, rfl⟩ := List.forall₂_cons_left_iff.mp h
      obtain ⟨before', y, after', rfl, hbefore, hxy, hafter⟩ := ih hzs
      exact ⟨z :: before', y, after', rfl, .cons hwz hbefore, hxy, hafter⟩

end Kouetsu
