import Kouetsu.Proofs.Engine
import Mathlib.Data.List.Induction
import Mathlib.Order.Lattice.Nat
/-!
# Histories of an engine

An engine after any number of registrations and unregistrations.  Its names stand in the order in
which they came in, each has the rule that was registered last, and a rule that fails while it is
looked through says nothing.  It takes nothing from the others either, as long as it can tell
whether it is on and leaves the document as it is.
-/

namespace Kouetsu

/-! ## Looking through what a rule brings forth -/

/-- What happens while the diagnostics of a rule are looked through: they end, the rule raises, or
an item comes, which may be no diagnostic.  The rule leaves the document in some state whenever it
is left alone. -/
inductive Iteration where
  | ends (left : Context)
  | raises (left : Context)
  | yields (item : Option Diagnostic) (left : Context) (rest : Iteration)

namespace Iteration

/-- All diagnostics of an iteration, or nothing where it does not get to its end. -/
def diagnostics? : Iteration → Option (List Diagnostic)
  | ends _ => some []
  | raises _ => none
  | yields none _ _ => none
  | yields (some d) _ rest => rest.diagnostics?.map (d :: ·)

/-- The iteration as it is met: an item that is no diagnostic breaks it off. -/
def outcome : Iteration → Outcome
  | ends left => { found := [], left := left }
  | raises left => { found := [], brokeOff := true, left := left }
  | yields none left _ => { found := [], brokeOff := true, left := left }
  | yields (some d) _ rest => { rest.outcome with found := d :: rest.outcome.found }

/-- An iteration gives all that was found, or nothing where it broke off. -/
theorem diagnostics?_eq (it : Iteration) :
    it.diagnostics? = if it.outcome.brokeOff then none else some it.outcome.found := by
  induction it with
  | ends left => rfl
  | raises left => rfl
  | yields item left rest ih =>
      cases item with
      | none => rfl
      | some d =>
          rw [diagnostics?, outcome, ih]
          cases rest.outcome.brokeOff <;> rfl

def answer (index : LineIndex) (it : Iteration) : List Diagnostic :=
  (it.diagnostics?.getD []).map fun d => { d with range := index.normalise d.range }

theorem placed_outcome (index : LineIndex) (it : Iteration) :
    Engine.placed index it.outcome = it.answer index := by
  rw [Engine.placed, answer, it.diagnostics?_eq]
  cases it.outcome.brokeOff <;> rfl

end Iteration

namespace Engine

/-! ## Changes -/

inductive Change where
  | register (r : Rule)
  | unregister (name : String)

/-- A registration that is refused leaves the engine as it is. -/
def Change.apply (e : Engine) : Change → Engine
  | .register r =>
      match e.register r with
      | .ok e' => e'
      | .error _ => e
  | .unregister name => e.unregister name

def after (cfg : RulesConfig) (cs : List Change) : Engine :=
  cs.foldl Change.apply { config := cfg }

theorem after_snoc (cfg : RulesConfig) (cs : List Change) (c : Change) :
    after cfg (cs ++ [c]) = c.apply (after cfg cs) := by
  rw [after, List.foldl_append]
  rfl

theorem register_nameless {e : Engine} {r : Rule} (hr : r.name = "") :
    e.register r = .error (.nameless r) := by
  rw [register, if_pos (String.isEmpty_iff.mpr hr)]

theorem register_named {e : Engine} {r : Rule} (hr : r.name ≠ "") :
    e.register r = .ok { e with rules := e.rules.insert r.name r } := by
  rw [register, if_neg (fun h => hr (String.isEmpty_iff.mp h))]

theorem apply_nameless {e : Engine} {r : Rule} (hr : r.name = "") :
    Change.apply e (.register r) = e := by
  rw [Change.apply, register_nameless hr]

theorem apply_named {e : Engine} {r : Rule} (hr : r.name ≠ "") :
    Change.apply e (.register r) = { e with rules := e.rules.insert r.name r } := by
  rw [Change.apply, register_named hr]

/-! ## What a history says -/

/-- The change at a place registers the rule, and no later one unregisters its name. -/
structure Stands (cs : List Change) (r : Rule) (i : Nat) : Prop where
  registered : cs[i]? = some (.register r)
  named : r.name ≠ ""
  kept : ∀ j, i < j → cs[j]? ≠ some (.unregister r.name)

/-- The places that register a name that has not been unregistered since. -/
def standing (cs : List Change) (n : String) : Set Nat :=
  {i | ∃ r, r.name = n ∧ Stands cs r i}

/-- The earliest registration of a name since it was last unregistered. -/
def EntersAt (cs : List Change) (n : String) (i : Nat) : Prop := IsLeast (standing cs n) i

/-- The rule of the latest registration of a name, which has not been unregistered since. -/
def Latest (cs : List Change) (n : String) (r : Rule) : Prop :=
  r.name = n ∧ ∃ i, Stands cs r i ∧
    ∀ j r', i < j → cs[j]? = some (.register r') → r'.name ≠ n

section

variable {cs : List Change} {c : Change} {r : Rule} {n : String} {i : Nat}

theorem Stands.lt_length (h : Stands cs r i) : i < cs.length :=
  (List.getElem?_eq_some_iff.mp h.registered).1

theorem not_stands_nil : ¬Stands [] r i := fun h => Nat.not_lt_zero i h.lt_length

theorem stands_snoc_iff : Stands (cs ++ [c]) r i ↔
    (Stands cs r i ∧ c ≠ .unregister r.name) ∨
      (i = cs.length ∧ c = .register r ∧ r.name ≠ "") := by
  constructor
  · intro h
    have hi : i < cs.length + 1 := by simpa using h.lt_length
    rcases Nat.lt_succ_iff_lt_or_eq.mp hi with hi | rfl
    · refine Or.inl ⟨⟨?_, h.named, fun j hj hun => h.kept j hj ?_⟩, fun hc => h.kept _ hi ?_⟩
      · rw [← List.getElem?_append_left hi, h.registered]
      · rwa [List.getElem?_append_left (List.getElem?_eq_some_iff.mp hun).1]
      · rw [List.getElem?_concat_length, hc]
    · have hreg := h.registered
      rw [List.getElem?_concat_length, Option.some.injEq] at hreg
      exact Or.inr ⟨rfl, hreg, h.named⟩
  · rintro (⟨h, hc⟩ | ⟨rfl, rfl, hr⟩)
    · refine ⟨by rw [List.getElem?_append_left h.lt_length, h.registered], h.named, ?_⟩
      intro j hj hun
      have hlt : j < cs.length + 1 := by simpa using (List.getElem?_eq_some_iff.mp hun).1
      rcases Nat.lt_succ_iff_lt_or_eq.mp hlt with hlt | rfl
      · exact h.kept j hj (by rwa [List.getElem?_append_left hlt] at hun)
      · rw [List.getElem?_concat_length, Option.some.injEq] at hun
        exact hc hun
    · refine ⟨List.getElem?_concat_length, hr, fun j hj hun => ?_⟩
      have hlt : j < cs.length + 1 := by simpa using (List.getElem?_eq_some_iff.mp hun).1
      omega

theorem lt_length_of_mem_standing (h : i ∈ standing cs n) : i < cs.length := by
  obtain ⟨r, _, hr⟩ := h
  exact hr.lt_length

theorem mem_standing_snoc_iff : i ∈ standing (cs ++ [c]) n ↔
    (i ∈ standing cs n ∧ c ≠ .unregister n) ∨
      (i = cs.length ∧ ∃ r, c = .register r ∧ r.name = n ∧ n ≠ "") := by
  constructor
  · rintro ⟨r, rfl, h⟩
    rcases stands_snoc_iff.mp h with ⟨h, hc⟩ | ⟨hi, hc, hr⟩
    · exact Or.inl ⟨⟨r, rfl, h⟩, hc⟩
    · exact Or.inr ⟨hi, r, hc, rfl, hr⟩
  · rintro (⟨⟨r, rfl, h⟩, hc⟩ | ⟨hi, r, hc, rfl, hr⟩)
    · exact ⟨r, rfl, stands_snoc_iff.mpr (Or.inl ⟨h, hc⟩)⟩
    · exact ⟨r, rfl, stands_snoc_iff.mpr (Or.inr ⟨hi, hc, hr⟩)⟩

theorem standing_nameless (hr : r.name = "") :
    standing (cs ++ [.register r]) n = standing cs n := by
  ext i
  rw [mem_standing_snoc_iff]
  grind

theorem standing_register (hr : r.name ≠ "") : standing (cs ++ [.register r]) n =
    if n = r.name then insert cs.length (standing cs n) else standing cs n := by
  ext i
  rw [mem_standing_snoc_iff]
  split
  · rw [Set.mem_insert_iff]
    grind
  · grind

theorem standing_unregister (m : String) : standing (cs ++ [.unregister m]) n =
    if n = m then ∅ else standing cs n := by
  ext i
  rw [mem_standing_snoc_iff]
  split
  · grind
  · grind

/-- A name that is present keeps the place at which it came in. -/
theorem EntersAt.of_snoc (h : EntersAt (cs ++ [c]) n i) (hn : (standing cs n).Nonempty) :
    EntersAt cs n i := by
  obtain ⟨hmem, hleast⟩ := h
  have hleast_of : ∀ j ∈ standing cs n, c ≠ .unregister n → i ≤ j := fun j hj hc =>
    hleast (mem_standing_snoc_iff.mpr (Or.inl ⟨hj, hc⟩))
  rcases mem_standing_snoc_iff.mp hmem with ⟨hi, hc⟩ | ⟨rfl, r, rfl, _⟩
  · exact ⟨hi, fun j hj => hleast_of j hj hc⟩
  · obtain ⟨j, hj⟩ := hn
    exact absurd (hleast_of j hj nofun) (Nat.not_le.mpr (lt_length_of_mem_standing hj))

theorem exists_entersAt_iff : (∃ i, EntersAt cs n i) ↔ (standing cs n).Nonempty :=
  ⟨fun ⟨i, hi⟩ => ⟨i, hi.1⟩, fun h => ⟨_, isLeast_csInf h⟩⟩

theorem latest_snoc_iff : Latest (cs ++ [c]) n r ↔
    (c = .register r ∧ r.name = n ∧ n ≠ "") ∨
      (Latest cs n r ∧ c ≠ .unregister n ∧ ∀ r', c = .register r' → r'.name ≠ n) := by
  constructor
  · rintro ⟨rfl, i, h, hlast⟩
    rcases stands_snoc_iff.mp h with ⟨h, hc⟩ | ⟨_, hc, hr⟩
    · refine Or.inr ⟨⟨rfl, i, h, fun j r' hj hreg => hlast j r' hj ?_⟩, hc, fun r' hreg => ?_⟩
      · rwa [List.getElem?_append_left (List.getElem?_eq_some_iff.mp hreg).1]
      · exact hlast cs.length r' h.lt_length (by rw [List.getElem?_concat_length, hreg])
    · exact Or.inl ⟨hc, rfl, hr⟩
  · rintro (⟨rfl, rfl, hn⟩ | ⟨⟨rfl, i, h, hlast⟩, hun, hreg⟩)
    · refine ⟨rfl, cs.length, stands_snoc_iff.mpr (Or.inr ⟨rfl, rfl, hn⟩), fun j r' hj hget => ?_⟩
      have hlt : j < cs.length + 1 := by simpa using (List.getElem?_eq_some_iff.mp hget).1
      omega
    · refine ⟨rfl, i, stands_snoc_iff.mpr (Or.inl ⟨h, hun⟩), fun j r' hj hget => ?_⟩
      have hlt : j < cs.length + 1 := by simpa using (List.getElem?_eq_some_iff.mp hget).1
      rcases Nat.lt_succ_iff_lt_or_eq.mp hlt with hlt | rfl
      · exact hlast j r' hj (by rwa [List.getElem?_append_left hlt] at hget)
      · exact hreg r' (by simpa using hget)

theorem latest_of_append {before after : List Change} (hr : r.name ≠ "")
    (hafter : ∀ c ∈ after, c ≠ .unregister r.name ∧ ∀ r', c = .register r' → r'.name ≠ r.name) :
    Latest (before ++ .register r :: after) r.name r := by
  induction after using List.reverseRecOn with
  | nil => exact latest_snoc_iff.mpr (Or.inl ⟨rfl, rfl, hr⟩)
  | append_singleton after c ih =>
      rw [← List.cons_append, ← List.append_assoc]
      obtain ⟨hun, hreg⟩ := hafter c (List.mem_append_right _ List.mem_cons_self)
      exact latest_snoc_iff.mpr
        (Or.inr ⟨ih fun c hc => hafter c (List.mem_append_left _ hc), hun, hreg⟩)

/-! ## Engines and histories -/

structure Follows (e : Engine) (cs : List Change) : Prop where
  nodup : e.names.Nodup
  mem_names : ∀ n, n ∈ e.names ↔ (standing cs n).Nonempty
  ordered : e.names.Pairwise fun m n => ∀ i j, EntersAt cs m i → EntersAt cs n j → i < j
  get?_eq_some : ∀ n r, e.get? n = some r ↔ Latest cs n r

variable {e : Engine}

theorem Follows.get?_name (h : Follows e cs) (hr : r ∈ e.rules.map (·.2)) :
    e.get? r.name = some r := by
  obtain ⟨⟨n, r⟩, hmem, rfl⟩ := List.mem_map.mp hr
  have hget : e.get? n = some r := Entries.get?_eq_some_of_mem h.nodup hmem
  rw [((h.get?_eq_some n r).mp hget).1]
  exact hget

theorem Follows.unregister (h : Follows e cs) (m : String) :
    Follows (e.unregister m) (cs ++ [.unregister m]) := by
  have hnames : (e.unregister m).names = e.names.filter (· ≠ m) := by
    rw [names, Engine.unregister, Entries.erase, Entries.keys, names, Entries.keys,
      List.filter_map]
    rfl
  constructor
  · rw [hnames]
    exact h.nodup.filter _
  · intro n
    rw [hnames, List.mem_filter, h.mem_names, standing_unregister]
    by_cases hn : n = m
    · simp [hn]
    · simp [hn]
  · rw [hnames]
    refine (h.ordered.filter _).imp_of_mem fun {n n'} hn hn' hlt i j hi hj => ?_
    exact hlt i j (hi.of_snoc ((h.mem_names n).mp (List.mem_filter.mp hn).1))
      (hj.of_snoc ((h.mem_names n').mp (List.mem_filter.mp hn').1))
  · intro n r
    rw [latest_snoc_iff, get?, Engine.unregister, Entries.get?_erase]
    by_cases hm : m = n
    · simp [hm]
    · have hget := h.get?_eq_some n r
      rw [get?] at hget
      simp [hm, hget]

theorem Follows.register (h : Follows e cs) (hr : r.name ≠ "") :
    Follows { e with rules := e.rules.insert r.name r } (cs ++ [.register r]) := by
  have hnames : Entries.keys (e.rules.insert r.name r) =
      if r.name ∈ e.names then e.names else e.names ++ [r.name] := Entries.keys_insert _ _ _
  have hold : e.names.Pairwise fun m n => ∀ i j, EntersAt (cs ++ [.register r]) m i →
      EntersAt (cs ++ [.register r]) n j → i < j :=
    h.ordered.imp_of_mem fun {m n} hm hn hlt i j hi hj =>
      hlt i j (hi.of_snoc ((h.mem_names m).mp hm)) (hj.of_snoc ((h.mem_names n).mp hn))
  constructor
  · exact Entries.nodup_keys_insert h.nodup r.name r
  · intro n
    rw [names, hnames, standing_register hr]
    have hmem := h.mem_names n
    by_cases hn : n = r.name
    · subst hn
      split <;> simp_all
    · split <;> simp [hn, hmem]
  · rw [names, hnames]
    split
    · exact hold
    · next hnew =>
        refine List.pairwise_append.mpr ⟨hold, List.pairwise_singleton _ _, ?_⟩
        intro m hm n hn i j hi hj
        rw [List.mem_singleton.mp hn] at hj
        -- The name comes in with the last change, all others came before it.
        have hi' := hi.of_snoc ((h.mem_names m).mp hm)
        rcases mem_standing_snoc_iff.mp hj.1 with ⟨hj, _⟩ | ⟨rfl, _⟩
        · exact absurd ((h.mem_names r.name).mpr ⟨j, hj⟩) hnew
        · exact lt_length_of_mem_standing hi'.1
  · intro n r'
    rw [latest_snoc_iff, get?, Entries.get?_insert]
    have hget := h.get?_eq_some n r'
    rw [get?] at hget
    by_cases hn : r.name = n
    · subst hn
      rw [if_pos rfl, Option.some.injEq]
      constructor
      · rintro rfl
        exact Or.inl ⟨rfl, rfl, hr⟩
      · rintro (⟨hreg, _⟩ | ⟨_, _, hother⟩)
        · exact Change.register.inj hreg
        · exact absurd rfl (hother r rfl)
    · rw [if_neg hn, hget]
      constructor
      · intro hlatest
        exact Or.inr ⟨hlatest, nofun, fun r₁ hreg => Change.register.inj hreg ▸ hn⟩
      · rintro (⟨hreg, hname, _⟩ | ⟨hlatest, _⟩)
        · exact absurd (Change.register.inj hreg ▸ hname) hn
        · exact hlatest

theorem Follows.apply (h : Follows e cs) (c : Change) : Follows (c.apply e) (cs ++ [c]) := by
  cases c with
  | unregister m => exact h.unregister m
  | register r =>
      by_cases hr : r.name = ""
      · rw [apply_nameless hr]
        have henters : ∀ n i, EntersAt (cs ++ [.register r]) n i ↔ EntersAt cs n i :=
          fun n i => by rw [EntersAt, EntersAt, standing_nameless hr]
        refine ⟨h.nodup, fun n => ?_, ?_, fun n r' => ?_⟩
        · rw [standing_nameless hr, h.mem_names]
        · simpa only [henters] using h.ordered
        · rw [h.get?_eq_some, latest_snoc_iff]
          grind [Latest, Stands]
      · rw [apply_named hr]
        exact h.register hr

/-- An engine is what its history tells. -/
theorem follows_after (cfg : RulesConfig) (cs : List Change) : Follows (after cfg cs) cs := by
  induction cs using List.reverseRecOn with
  | nil =>
      refine ⟨List.nodup_nil, fun n => ?_, List.Pairwise.nil, fun n r => ?_⟩
      · simp [after, names, Entries.keys, standing, not_stands_nil]
      · simp [after, get?, Entries.get?, Latest, not_stands_nil]
  | append_singleton cs c ih =>
      rw [after_snoc]
      exact ih.apply c

end

/-- Rules that are registered one after the other make the history of their registrations. -/
theorem foldl_apply_register {rules : List Rule} {e e' : Engine}
    (h : rules.foldlM register e = .ok e') : (rules.map .register).foldl Change.apply e = e' := by
  induction rules generalizing e with
  | nil => exact Except.ok.inj h
  | cons r rules ih =>
      rw [List.foldlM_cons] at h
      cases hr : e.register r with
      | error err =>
          rw [hr] at h
          cases h
      | ok e₁ =>
          rw [hr] at h
          rw [List.map_cons, List.foldl_cons, Change.apply, hr]
          exact ih h

/-! ## Answers -/

def inOrder (e : Engine) : List Rule := e.names.filterMap e.get?

theorem inOrder_eq {e : Engine} (h : e.names.Nodup) : e.inOrder = e.rules.map (·.2) := by
  rw [inOrder, names, Entries.keys, List.filterMap_map, ← List.filterMap_eq_map]
  refine List.filterMap_congr fun x hx => ?_
  exact Entries.get?_eq_some_of_mem h hx

/-- What rules add to an answer that look at a document in turn, each as the one before left it. -/
def answers (iterationOf : Rule → Context → Iteration) (index : LineIndex) :
    List Rule → Context → List Diagnostic
  | [], _ => []
  | r :: rest, ctx =>
      (iterationOf r ctx).answer index ++
        answers iterationOf index rest (iterationOf r ctx).outcome.left

section

variable {e : Engine} {iterationOf : Rule → Context → Iteration} {t : Text} {tokens : List Token}
  {sentences : List Sentence} {used : RulesConfig} {ctx : Context}

theorem runInTurn_eq_answers (index : LineIndex) {rs : List Rule}
    (hrun : ∀ r ∈ rs, ∀ ctx, r.run ctx = (iterationOf r ctx).outcome) (ctx : Context) :
    runInTurn index rs ctx = answers iterationOf index rs ctx := by
  induction rs generalizing ctx with
  | nil => rfl
  | cons r rs ih =>
      obtain ⟨hr, hrs⟩ := List.forall_mem_cons.mp hrun
      rw [runInTurn, answers, hr, Iteration.placed_outcome, ih hrs]

/-- Rules that leave a document as it is each answer as if they were alone. -/
theorem answers_eq_flatMap (index : LineIndex) {rs : List Rule}
    (hleaves : ∀ r ∈ rs, (iterationOf r ctx).outcome.left = ctx) :
    answers iterationOf index rs ctx = rs.flatMap fun r => (iterationOf r ctx).answer index := by
  induction rs with
  | nil => rfl
  | cons r rs ih =>
      obtain ⟨hr, hrs⟩ := List.forall_mem_cons.mp hleaves
      rw [answers, hr, ih hrs, List.flatMap_cons]

/-- Without rules that say nothing and change nothing the answers are the same. -/
theorem answers_filter (index : LineIndex) {rs : List Rule} {p : Rule → Bool}
    (hsilent : ∀ r ∈ rs, p r = false → ∀ ctx, (iterationOf r ctx).answer index = [] ∧
      (iterationOf r ctx).outcome.left = ctx) (ctx : Context) :
    answers iterationOf index (rs.filter p) ctx = answers iterationOf index rs ctx := by
  induction rs generalizing ctx with
  | nil => rfl
  | cons r rs ih =>
      obtain ⟨hr, hrs⟩ := List.forall_mem_cons.mp hsilent
      cases hp : p r with
      | true => rw [List.filter_cons_of_pos hp, answers, answers, ih hrs]
      | false =>
          obtain ⟨hnothing, hleaves⟩ := hr hp ctx
          rw [List.filter_cons_of_neg (by simp [hp]), answers, hnothing, hleaves, ih hrs,
            List.nil_append]

theorem flatMap_filter_of_eq_nil {f : Rule → List Diagnostic} {rs : List Rule} {p : Rule → Bool}
    (hsilent : ∀ r ∈ rs, p r = false → f r = []) : (rs.filter p).flatMap f = rs.flatMap f := by
  induction rs with
  | nil => rfl
  | cons r rs ih =>
      obtain ⟨hr, hrs⟩ := List.forall_mem_cons.mp hsilent
      cases hp : p r with
      | true => rw [List.filter_cons_of_pos hp, List.flatMap_cons, List.flatMap_cons, ih hrs]
      | false =>
          rw [List.filter_cons_of_neg (by simp [hp]), List.flatMap_cons, hr hp, ih hrs,
            List.nil_append]

end

def runningInOrder (e : Engine) (used : RulesConfig) (chosen : Option (List String)) : List Rule :=
  e.inOrder.filter fun r => r.isEnabled used && chosen.all (r.name ∈ ·)

theorem runningInOrder_eq {e : Engine} (h : e.names.Nodup) (used : RulesConfig)
    (chosen : Option (List String)) : e.runningInOrder used chosen = e.running used chosen := by
  rw [runningInOrder, inOrder_eq h, running]
  congr 1
  funext r
  rw [Bool.and_comm, isChosen]
  cases chosen <;> simp

theorem after_unregister (cfg : RulesConfig) (cs : List Change) (n : String) :
    after cfg (cs ++ [.unregister n]) = (after cfg cs).unregister n := by
  rw [after_snoc]
  rfl

section

variable {e : Engine} {cs : List Change} {iterationOf : Rule → Context → Iteration} {t : Text}
  {tokens : List Token} {sentences : List Sentence} {used : RulesConfig}
  {chosen : Option (List String)}

theorem Follows.get?_of_mem_inOrder (h : Follows e cs) {r : Rule} (hr : r ∈ e.inOrder) :
    e.get? r.name = some r := by
  rw [inOrder_eq h.nodup] at hr
  exact h.get?_name hr

/-- Only the rule of a name has the name. -/
theorem Follows.eq_of_mem_runningInOrder (h : Follows e cs) {n : String} {r r' : Rule}
    (hr : e.get? n = some r) (hr' : r' ∈ e.runningInOrder used chosen) (hname : r'.name = n) :
    r' = r := by
  have hget := h.get?_of_mem_inOrder (List.mem_filter.mp hr').1
  rw [hname, hr] at hget
  exact (Option.some.inj hget).symm

theorem Follows.inOrder_unregister (h : Follows e cs) (n : String) :
    (e.unregister n).inOrder = e.inOrder.filter (·.name ≠ n) := by
  rw [inOrder_eq h.nodup, inOrder_eq (h.unregister n).nodup, Engine.unregister, Entries.erase,
    List.filter_map]
  congr 1
  refine List.filter_congr fun x hx => ?_
  have hget := Entries.get?_eq_some_of_mem h.nodup hx
  rw [Function.comp_apply, ((h.get?_eq_some x.1 x.2).mp hget).1]

theorem Follows.runningInOrder_unregister (h : Follows e cs) (n : String) (used : RulesConfig)
    (chosen : Option (List String)) : (e.unregister n).runningInOrder used chosen =
      (e.runningInOrder used chosen).filter (·.name ≠ n) := by
  rw [runningInOrder, h.inOrder_unregister, runningInOrder, List.filter_comm]

theorem check_eq_answers (hnodup : e.names.Nodup)
    (htells : ∀ r ∈ e.inOrder, (r.isOn? used).isSome = true)
    (hrun : ∀ r ∈ e.inOrder, ∀ ctx, r.run ctx = (iterationOf r ctx).outcome) :
    e.check t tokens sentences used chosen = .ok (answers iterationOf (.ofText t)
      (e.runningInOrder used chosen) (.of t tokens sentences used)) := by
  rw [check_eq_runInTurn (inOrder_eq hnodup ▸ htells), ← runningInOrder_eq hnodup]
  refine congrArg Except.ok (runInTurn_eq_answers _ (fun r hr => ?_) _)
  exact hrun r (List.mem_filter.mp hr).1

/-- Without a name the other rules answer in the same order. -/
theorem Follows.check_unregister (h : Follows e cs)
    (htells : ∀ r ∈ e.inOrder, (r.isOn? used).isSome = true)
    (hrun : ∀ r ∈ e.inOrder, ∀ ctx, r.run ctx = (iterationOf r ctx).outcome) (n : String) :
    (e.unregister n).check t tokens sentences used chosen = .ok (answers iterationOf (.ofText t)
      ((e.runningInOrder used chosen).filter (·.name ≠ n)) (.of t tokens sentences used)) := by
  have hsub : ∀ r ∈ (e.unregister n).inOrder, r ∈ e.inOrder := by
    intro r hr
    rw [h.inOrder_unregister] at hr
    exact (List.mem_filter.mp hr).1
  rw [check_eq_answers (h.unregister n).nodup (fun r hr => htells r (hsub r hr))
    fun r hr => hrun r (hsub r hr), h.runningInOrder_unregister]

end

/-- An engine's names are distinct and stand in the order of their earliest registrations since
they were last unregistered, and each has the rule of its latest registration.  A rule without a
name is refused and changes nothing.

The first rule, in the order of the names, whose test raises ends an answer.  If there is none, the
rules that are on look at the document in turn, and one whose iteration does not get to its end
says nothing.  The others answer as without it if it leaves every document as it is.  Where no rule
that runs changes the document, the answer puts together what each rule says of it alone. -/
theorem answers_of_history (cfg : RulesConfig) (cs : List Change) :
    let e := after cfg cs
    e.names.Nodup ∧
      (∀ n, n ∈ e.names ↔ ∃ i, EntersAt cs n i) ∧
      (e.names.Pairwise fun m n => ∀ i j, EntersAt cs m i → EntersAt cs n j → i < j) ∧
      (∀ n r, e.get? n = some r ↔ Latest cs n r) ∧
      (∀ r, r.name = "" →
        e.register r = .error (.nameless r) ∧ after cfg (cs ++ [.register r]) = e) ∧
      (∀ r, r.name ≠ "" → e.register r = .ok (after cfg (cs ++ [.register r]))) ∧
      ∀ (t : Text) (tokens : List Token) (sentences : List Sentence) (used : RulesConfig)
        (chosen : Option (List String)) (iterationOf : Rule → Context → Iteration),
        (∀ n r, e.get? n = some r → ∀ ctx, r.run ctx = (iterationOf r ctx).outcome) →
        let ctx : Context := .of t tokens sentences used
        let answer (cs : List Change) := (after cfg cs).check t tokens sentences used chosen
        let without (n : String) := answer (cs ++ [.unregister n])
        let running := e.runningInOrder used chosen
        (∀ r, e.inOrder.find? (fun r => (r.isOn? used).isNone) = some r →
          answer cs = .error ⟨r.name⟩) ∧
        ((∀ r ∈ e.inOrder, (r.isOn? used).isSome = true) →
          answer cs = .ok (answers iterationOf ctx.index running ctx) ∧
          (∀ n r, e.get? n = some r → (∀ ctx, (iterationOf r ctx).diagnostics? = none ∧
            (iterationOf r ctx).outcome.left = ctx) → without n = answer cs) ∧
          ((∀ r ∈ running, (iterationOf r ctx).outcome.left = ctx) →
            answer cs = .ok (running.flatMap fun r => (iterationOf r ctx).answer ctx.index) ∧
            ∀ n r, e.get? n = some r → (iterationOf r ctx).diagnostics? = none →
              without n = answer cs)) := by
  intro e
  have h : Follows e cs := follows_after cfg cs
  refine ⟨h.nodup, fun n => ?_, h.ordered, h.get?_eq_some, fun r hr => ?_, fun r hr => ?_, ?_⟩
  · rw [h.mem_names, exists_entersAt_iff]
  · exact ⟨register_nameless hr, by rw [after_snoc, apply_nameless hr]⟩
  · rw [after_snoc, apply_named hr]
    exact register_named hr
  · intro t tokens sentences used chosen iterationOf hrun ctx answer without running
    refine ⟨fun r hr => ?_, fun htells => ?_⟩
    · rw [inOrder_eq h.nodup] at hr
      show check e _ _ _ _ _ = _
      rw [check, enabledRules_eq_error hr]
      rfl
    have hruns : ∀ r ∈ e.inOrder, ∀ ctx, r.run ctx = (iterationOf r ctx).outcome := fun r hr =>
      hrun r.name r (h.get?_of_mem_inOrder hr)
    have hwhole : answer cs = .ok (answers iterationOf ctx.index running ctx) :=
      check_eq_answers h.nodup htells hruns
    have hwithout (n : String) :
        without n = .ok (answers iterationOf ctx.index (running.filter (·.name ≠ n)) ctx) := by
      show (after cfg (cs ++ [.unregister n])).check _ _ _ _ _ = _
      rw [after_unregister]
      exact h.check_unregister htells hruns n
    have hrule : ∀ n r, e.get? n = some r → ∀ r' ∈ running, decide (r'.name ≠ n) = false →
        r' = r := fun n r hr r' hr' hname =>
      h.eq_of_mem_runningInOrder hr hr' (by simpa using hname)
    refine ⟨hwhole, fun n r hr hfails => ?_, fun hleaves => ?_⟩
    · rw [hwithout, hwhole]
      refine congrArg Except.ok (answers_filter _ (fun r' hr' hname ctx => ?_) _)
      obtain rfl := hrule n r hr r' hr' hname
      obtain ⟨hnone, hleft⟩ := hfails ctx
      exact ⟨by rw [Iteration.answer, hnone]; rfl, hleft⟩
    · have hflat := answers_eq_flatMap ctx.index hleaves
      refine ⟨hwhole.trans (congrArg Except.ok hflat), fun n r hr hnone => ?_⟩
      rw [hwithout, hwhole, hflat,
        answers_eq_flatMap _ fun r' hr' => hleaves r' (List.mem_filter.mp hr').1]
      refine congrArg Except.ok (flatMap_filter_of_eq_nil fun r' hr' hname => ?_)
      obtain rfl := hrule n r hr r' hr' hname
      rw [Iteration.answer, hnone]
      rfl

/-- A rule that comes in again goes to the end, and one that fails after its first diagnostic says
nothing. -/
theorem answers_of_history_late :
    let d : Diagnostic :=
      { code := "mark", message := "m", range := .ofOffsets 2 3, source := "s" }
    let fine : Rule :=
      { name := "fine", label := "Fine", description := ""
        run := fun ctx => { found := [d], left := ctx } }
    let late : Rule :=
      { name := "late", label := "Late", description := ""
        run := fun ctx => { found := [d], brokeOff := true, left := ctx } }
    let unnamed : Rule := { fine with name := "" }
    let cs : List Change :=
      [.register fine, .register late, .register unnamed, .unregister "fine", .register late,
        .register fine]
    let e := after {} cs
    let looks : Rule → Context → Iteration := fun r ctx =>
      if r.name = "late" then .yields (some d) ctx (.yields none ctx (.ends ctx))
      else .yields (some d) ctx (.ends ctx)
    let t := "a\nb".toList
    e.names = ["late", "fine"] ∧
      (∃ i j, EntersAt cs "late" i ∧ EntersAt cs "fine" j ∧ i < j) ∧
      Latest cs "late" late ∧ after {} (cs ++ [.register unnamed]) = e ∧
      (∀ n r, e.get? n = some r → ∀ ctx, r.run ctx = (looks r ctx).outcome) ∧
      (∀ r ∈ e.inOrder, (r.isOn? {}).isSome = true) ∧
      e.check t [] [] {} none = .ok [{ d with range := ⟨⟨1, 0⟩, ⟨1, 1⟩⟩ }] ∧
      (after {} (cs ++ [.unregister "late"])).check t [] [] {} none = e.check t [] [] {} none := by
  intro d fine late unnamed cs e looks t
  obtain ⟨_, hnames, hordered, hget, hnameless, _, hcheck⟩ := answers_of_history {} cs
  have hrules : e.rules = [("late", late), ("fine", fine)] := rfl
  have hrun : ∀ n r, e.get? n = some r → ∀ ctx, r.run ctx = (looks r ctx).outcome := by
    intro n r hr ctx
    have hmem := Entries.mem_of_get?_eq_some hr
    rw [hrules] at hmem
    rcases List.mem_pair.mp hmem with h | h
    · rw [(Prod.mk.inj h).2]
      rfl
    · rw [(Prod.mk.inj h).2]
      rfl
  have htells : ∀ r ∈ e.inOrder, (r.isOn? {}).isSome = true := by
    intro r hr
    rcases List.mem_pair.mp (show r ∈ [late, fine] from hr) with rfl | rfl <;> rfl
  have hleaves : ∀ r ∈ e.runningInOrder {} none,
      (looks r (.of t [] [] {})).outcome.left = .of t [] [] {} := by
    intro r hr
    rcases List.mem_pair.mp (show r ∈ [late, fine] from hr) with rfl | rfl <;> rfl
  obtain ⟨hanswer, hwithout⟩ := ((hcheck t [] [] {} none looks hrun).2 htells).2.2 hleaves
  have hlate : e.get? "late" = some late := rfl
  obtain ⟨i, hi⟩ := (hnames "late").mp List.mem_cons_self
  obtain ⟨j, hj⟩ := (hnames "fine").mp (List.mem_cons_of_mem _ List.mem_cons_self)
  have hlt : i < j := List.rel_of_pairwise_cons hordered List.mem_cons_self i j hi hj
  exact ⟨rfl, ⟨i, j, hi, hj, hlt⟩, (hget _ _).mp hlate, (hnameless unnamed rfl).2, hrun, htells,
    hanswer.trans rfl, hwithout "late" late hlate rfl⟩

/-- A rule whose test raises takes the answers of all others away, and one that breaks off may
have changed the document for those after it. -/
theorem check_loses_others :
    let d : Diagnostic :=
      { code := "mark", message := "m", range := .ofOffsets 0 1, source := "s" }
    let fine : Rule :=
      { name := "fine", label := "Fine", description := ""
        run := fun ctx => { found := if ctx.text.isEmpty then [] else [d], left := ctx } }
    let untold : Rule :=
      { name := "untold", label := "Untold", description := "", isOn? := fun _ => none
        run := fun ctx => { found := [], left := ctx } }
    let eraser : Rule :=
      { name := "eraser", label := "Eraser", description := ""
        run := fun ctx => { found := [], brokeOff := true, left := { ctx with text := [] } } }
    let answer (rules : List Rule) :=
      (after {} (rules.map .register)).check "a".toList [] [] {} none
    answer [fine] = .ok [d] ∧ answer [fine, untold] = .error ⟨"untold"⟩ ∧
      answer [eraser, fine] = .ok [] :=
  ⟨rfl, rfl, rfl⟩

end Engine

end Kouetsu
