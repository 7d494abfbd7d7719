import Mathlib.Data.Finset.Max
import Mathlib.Data.List.Lex
import Mathlib.Data.List.Sort
import RoutePolicy.Route.Basic

set_option autoImplicit false

/-! # Which stages of a tree are translated

A node of a route is named by the branches that lead to it from the root, and the depth-first order
in which a node comes before what lies below it is the lexicographic order of these paths. A node is
translated if the walk comes to it and has not met its identifier before; below a node that is not
translated the walk does not go (`Route.Translated`). This says of every node whether it is
translated (`Route.Translated.unique`), and `Route.stages` lists the stages of the translated ones
(`Route.exists_translated`). -/

namespace RoutePolicy

namespace Route

/-- The node that the numbers of branches lead to, from the root. -/
def at? : Route → List Nat → Option Route
  | r, [] => some r
  | r, i :: path => r.branches[i]?.bind fun branch => branch.at? path

/-- The walk that goes below the nodes at `paths`, and below no others, comes to the node `r`. -/
def Meets (route : Route) (paths : List (List Nat)) (path : List Nat) (r : Route) : Prop :=
  route.at? path = some r ∧ (path = [] ∨ path.dropLast ∈ paths)

/-- The paths of the translated nodes, in order: the walk comes to them, and to no node of the same
identifier before. -/
structure Translated (route : Route) (paths : List (List Nat)) : Prop where
  ascending : paths.Pairwise (· < ·)
  mem_iff : ∀ path, path ∈ paths ↔ ∃ r, route.Meets paths path r ∧
    ∀ earlier r', earlier < path → route.Meets paths earlier r' → r'.id ≠ r.id

/-! ## One list of translated nodes -/

/-- A node comes before what lies below it. -/
theorem dropLast_lt {path : List Nat} (h : path ≠ []) : path.dropLast < path := by
  induction path with
  | nil => exact absurd rfl h
  | cons i path ih =>
      cases path with
      | nil => exact List.nil_lt_cons i []
      | cons j path =>
          rw [List.dropLast_cons_cons]
          exact List.cons_lt_cons_iff.mpr (Or.inr ⟨rfl, ih (List.cons_ne_nil j path)⟩)

section

variable {route r : Route} {paths others : List (List Nat)} {path : List Nat}

/-- To what node the walk comes depends on the earlier nodes only. -/
theorem meets_congr (h : ∀ earlier < path, earlier ∈ paths ↔ earlier ∈ others) :
    route.Meets paths path r ↔ route.Meets others path r := by
  unfold Meets
  by_cases hpath : path = []
  · simp [hpath]
  · rw [h _ (dropLast_lt hpath)]

theorem Translated.mem_congr (hpaths : route.Translated paths) (hothers : route.Translated others)
    (h : ∀ earlier < path, earlier ∈ paths ↔ earlier ∈ others) : path ∈ paths ↔ path ∈ others := by
  rw [hpaths.mem_iff, hothers.mem_iff]
  refine exists_congr fun r => and_congr (meets_congr h) ?_
  refine forall_congr' fun earlier => forall_congr' fun r' => imp_congr_right fun hlt => ?_
  rw [meets_congr fun before hbefore => h before (lt_trans hbefore hlt)]

/-- **The tree determines its translated nodes.** -/
theorem Translated.unique (hpaths : route.Translated paths) (hothers : route.Translated others) :
    paths = others := by
  refine hpaths.ascending.eq_of_mem_iff hothers.ascending ?_
  by_contra hne
  obtain ⟨path, hpath⟩ := not_forall.mp hne
  -- of the nodes on one list only there is a first one, before which the lists agree
  let differing := (paths ++ others).toFinset.filter fun path => ¬(path ∈ paths ↔ path ∈ others)
  have hdiffering (path : List Nat) (h : ¬(path ∈ paths ↔ path ∈ others)) : path ∈ differing := by
    refine Finset.mem_filter.mpr ⟨List.mem_toFinset.mpr (List.mem_append.mpr ?_), h⟩
    tauto
  obtain ⟨first, hfirst, hleast⟩ :=
    Finset.exists_min_image differing (fun path => path) ⟨path, hdiffering path hpath⟩
  refine (Finset.mem_filter.mp hfirst).2 (hpaths.mem_congr hothers fun earlier hlt => ?_)
  by_contra hearlier
  exact not_le_of_gt hlt (hleast earlier (hdiffering earlier hearlier))

end

/-! ## The walk

The branches of a node are walked through one after the other. The walk through one tree and that
through several trees are described at once, by the nodes that the paths lead to and by the paths at
which the walk sets out. -/

/-- The node in one of several trees. The first number is that of the tree. -/
def inForest? (routes : List Route) : List Nat → Option Route
  | [] => none
  | i :: path => routes[i]?.bind fun route => route.at? path

/-- The stages and identifiers that a walk gives are those at the paths, of which none was `seen`
before the walk. -/
structure Walks (node? : List Nat → Option Route) (start : List Nat → Prop) (seen : List String)
    (result : List Stage × List String) (paths : List (List Nat)) : Prop where
  ascending : paths.Pairwise (· < ·)
  mem_iff : ∀ path, path ∈ paths ↔ ∃ r, node? path = some r ∧
    (start path ∨ path.dropLast ∈ paths) ∧ r.id ∉ seen ∧
    ∀ earlier ∈ paths, earlier < path → ∀ r', node? earlier = some r' → r'.id ≠ r.id
  stages : result.1 = paths.filterMap fun path => (node? path).map stage
  seen : ∀ id, id ∈ result.2 ↔ id ∈ seen ∨ ∃ path ∈ paths, ∃ r, node? path = some r ∧ r.id = id

section

variable {stage : Stage} {route : Route} {routes : List Route} {seen : List String}
  {path : List Nat} {paths : List (List Nat)} {result : List Stage × List String}

/-- The walk does not enter a node whose identifier was seen. -/
theorem walks_seen (h : stage.id ∈ seen) :
    Walks (node stage routes).at? (· = []) seen ([], seen) [] := by
  refine ⟨.nil, fun path => ?_, rfl, by simp⟩
  simp only [List.not_mem_nil, or_false, false_iff]
  rintro ⟨r, hr, rfl, hnew, -⟩
  obtain rfl := Option.some_inj.mp hr
  exact hnew h

theorem walks_nil (seen : List String) :
    Walks (inForest? []) (·.dropLast = []) seen ([], seen) [] := by
  refine ⟨.nil, fun path => ?_, rfl, by simp⟩
  cases path <;> simp [inForest?]

theorem Walks.nil_not_mem {start : List Nat → Prop}
    (h : Walks (inForest? routes) start seen result paths) : [] ∉ paths := fun hnil => by
  obtain ⟨r, hr, -⟩ := (h.mem_iff []).mp hnil
  cases hr

/-- A node comes first, and its identifier is not new below it. -/
theorem Walks.node (h : stage.id ∉ seen)
    (hroutes : Walks (inForest? routes) (·.dropLast = []) (stage.id :: seen) result paths) :
    Walks (node stage routes).at? (· = []) seen (stage :: result.1, result.2) ([] :: paths) := by
  have hbelow : ∀ path ∈ paths, (Route.node stage routes).at? path = inForest? routes path := by
    intro path hpath
    cases path with
    | nil => exact absurd hpath hroutes.nil_not_mem
    | cons i path => rfl
  constructor
  case ascending =>
    refine List.pairwise_cons.mpr ⟨fun path hpath => ?_, hroutes.ascending⟩
    cases path with
    | nil => exact absurd hpath hroutes.nil_not_mem
    | cons i path => exact List.nil_lt_cons i path
  case mem_iff =>
    intro path
    cases path with
    | nil =>
        refine iff_of_true List.mem_cons_self ⟨_, rfl, Or.inl rfl, h, fun earlier _ hlt => ?_⟩
        exact absurd hlt (List.not_lt_nil earlier)
    | cons i path =>
        rw [List.mem_cons, or_iff_right (List.cons_ne_nil i path), hroutes.mem_iff]
        refine exists_congr fun r => and_congr_right fun _ => and_congr ?_ ?_
        · rw [List.mem_cons, or_iff_right (List.cons_ne_nil i path)]
        · -- the root is earlier, so its identifier counts as one that was seen
          constructor
          · rintro ⟨hnew, hearlier⟩
            refine ⟨List.not_mem_of_not_mem_cons hnew,
              List.forall_mem_cons.mpr ⟨fun _ r' hr' => ?_, fun earlier hmem hlt => ?_⟩⟩
            · obtain rfl := Option.some_inj.mp hr'
              exact (List.ne_of_not_mem_cons hnew).symm
            · rw [hbelow earlier hmem]
              exact hearlier earlier hmem hlt
          · rintro ⟨hnew, hearlier⟩
            obtain ⟨hroot, hearlier⟩ := List.forall_mem_cons.mp hearlier
            have hne := hroot (List.nil_lt_cons i path) _ rfl
            refine ⟨List.not_mem_cons_of_ne_of_not_mem hne.symm hnew, fun earlier hmem hlt => ?_⟩
            rw [← hbelow earlier hmem]
            exact hearlier earlier hmem hlt
  case stages =>
    show stage :: result.1 = _
    rw [hroutes.stages]
    exact congrArg (stage :: ·) (List.filterMap_congr fun path hpath => by rw [hbelow path hpath])
  case seen =>
    intro id
    have hroot : (∃ r, (Route.node stage routes).at? [] = some r ∧ r.id = id) ↔ id = stage.id := by
      simp [at?, Route.id, Route.stage, eq_comm]
    have hrest : (∃ path ∈ paths, ∃ r, (Route.node stage routes).at? path = some r ∧ r.id = id) ↔
        ∃ path ∈ paths, ∃ r, inForest? routes path = some r ∧ r.id = id :=
      exists_congr fun path => and_congr_right fun hpath => by rw [hbelow path hpath]
    rw [hroutes.seen]
    simp only [List.mem_cons, or_and_right, exists_or, exists_eq_left, hroot, hrest]
    rw [or_assoc, or_left_comm]

/-- The path to a node of several trees when one more tree is put before them. -/
def later : List Nat → List Nat
  | [] => []
  | i :: path => (i + 1) :: path

/-- The paths in a first tree and in those after it, as paths in all of them. -/
def beside (firsts rests : List (List Nat)) : List (List Nat) :=
  firsts.map (0 :: ·) ++ rests.map later

section

variable {firsts rests : List (List Nat)} {path' : List Nat} {i : Nat}

theorem inForest?_later (path : List Nat) :
    inForest? (route :: routes) (later path) = inForest? routes path := by
  cases path <;> rfl

theorem later_lt_later : later path < later path' ↔ path < path' := by
  cases path <;> cases path' <;> simp [later, List.cons_lt_cons_iff]

theorem zero_cons_lt_later (h : path' ≠ []) (path : List Nat) : 0 :: path < later path' := by
  cases path' with
  | nil => exact absurd rfl h
  | cons i path' => exact List.cons_lt_cons_iff.mpr (Or.inl (Nat.succ_pos i))

theorem nil_not_mem_beside (h : [] ∉ rests) : [] ∉ beside firsts rests := by
  intro hmem
  rcases List.mem_append.mp hmem with hmem | hmem
  · simp at hmem
  · obtain ⟨path, hpath, heq⟩ := List.mem_map.mp hmem
    cases path with
    | nil => exact h hpath
    | cons i path => cases heq

theorem zero_cons_mem_beside : 0 :: path ∈ beside firsts rests ↔ path ∈ firsts := by
  have hlater : ∀ path', later path' ≠ 0 :: path := by
    intro path'
    cases path' <;> simp [later]
  simp [beside, hlater]

theorem succ_cons_mem_beside : (i + 1) :: path ∈ beside firsts rests ↔ i :: path ∈ rests := by
  have hlater (path' : List Nat) : later path' = (i + 1) :: path ↔ path' = i :: path := by
    cases path' <;> simp [later]
  simp [beside, hlater]

theorem forall_mem_beside {P : List Nat → Prop} : (∀ path ∈ beside firsts rests, P path) ↔
    (∀ path ∈ firsts, P (0 :: path)) ∧ ∀ path ∈ rests, P (later path) := by
  rw [beside, List.forall_mem_append, List.forall_mem_map, List.forall_mem_map]

end

/-- The trees after the first one are walked through with the identifiers that were seen there. -/
theorem Walks.cons {first rest : List Stage × List String} {firsts rests : List (List Nat)}
    (hfirst : Walks route.at? (· = []) seen first firsts)
    (hrest : Walks (inForest? routes) (·.dropLast = []) first.2 rest rests) :
    Walks (inForest? (route :: routes)) (·.dropLast = []) seen (first.1 ++ rest.1, rest.2)
      (beside firsts rests) := by
  have hbefore : ∀ path, ∀ path' ∈ rests, 0 :: path < later path' := fun path path' hpath' =>
    zero_cons_lt_later (fun hnil => hrest.nil_not_mem (hnil ▸ hpath')) path
  constructor
  case ascending =>
    refine List.pairwise_append.mpr
      ⟨hfirst.ascending.map _ fun _ _ => List.cons_lt_cons_self.mpr,
        hrest.ascending.map _ fun _ _ => later_lt_later.mpr, ?_⟩
    exact List.forall_mem_map.mpr fun path _ => List.forall_mem_map.mpr (hbefore path)
  case mem_iff =>
    intro path
    rcases path with _ | ⟨_ | i, path⟩
    · refine iff_of_false (nil_not_mem_beside hrest.nil_not_mem) fun ⟨r, hr, _⟩ => ?_
      cases hr
    · -- no node of a later tree comes before one of the first tree
      rw [zero_cons_mem_beside, hfirst.mem_iff]
      refine exists_congr fun r => and_congr_right fun _ =>
        and_congr ?_ (and_congr_right fun _ => ?_)
      · cases path with
        | nil => simp
        | cons j path => simp [zero_cons_mem_beside]
      · rw [forall_mem_beside]
        simp only [List.cons_lt_cons_self]
        refine (and_iff_left fun path' hpath' hlt => ?_).symm
        exact absurd hlt (lt_asymm (hbefore path path' hpath'))
    · -- all nodes of the first tree come before one of a later tree
      rw [succ_cons_mem_beside, hrest.mem_iff]
      refine exists_congr fun r => and_congr_right fun _ => and_congr ?_ ?_
      · cases path with
        | nil => simp
        | cons j path => simp [succ_cons_mem_beside]
      · have hzero (path' : List Nat) : 0 :: path' < (i + 1) :: path :=
          List.cons_lt_cons_iff.mpr (Or.inl (Nat.succ_pos i))
        have hlater (path' : List Nat) : later path' < (i + 1) :: path ↔ path' < i :: path :=
          (later_lt_later : later path' < later (i :: path) ↔ _)
        rw [hfirst.seen, forall_mem_beside]
        simp only [hzero, hlater, inForest?_later, not_or, not_exists, not_and, true_imp_iff,
          and_assoc]
        rfl
  case stages =>
    show first.1 ++ rest.1 = _
    rw [beside, List.filterMap_append, List.filterMap_map, List.filterMap_map, hfirst.stages,
      hrest.stages]
    refine congrArg _ (List.filterMap_congr fun path _ => ?_)
    rw [Function.comp, inForest?_later]
  case seen =>
    intro id
    rw [hrest.seen, hfirst.seen]
    simp only [beside, List.mem_append, List.mem_map, or_and_right, exists_or,
      exists_exists_and_eq_and, inForest?_later, or_assoc]
    rfl

end

mutual

theorem exists_walks_newStages (seen : List String) : ∀ route : Route,
    ∃ paths, Walks route.at? (· = []) seen (newStages seen route) paths
  | .node stage branches => by
    rw [newStages]
    split
    · rename_i hseen
      exact ⟨[], walks_seen hseen⟩
    · rename_i hnew
      obtain ⟨paths, hpaths⟩ := exists_walks_newStagesAll (stage.id :: seen) branches
      exact ⟨[] :: paths, hpaths.node hnew⟩

theorem exists_walks_newStagesAll (seen : List String) : ∀ routes : List Route,
    ∃ paths, Walks (inForest? routes) (·.dropLast = []) seen (newStagesAll seen routes) paths
  | [] => ⟨[], walks_nil seen⟩
  | route :: routes => by
    obtain ⟨firsts, hfirst⟩ := exists_walks_newStages seen route
    obtain ⟨rests, hrest⟩ := exists_walks_newStagesAll (newStages seen route).2 routes
    exact ⟨beside firsts rests, hfirst.cons hrest⟩

end

/-- A walk that starts without identifiers translates the nodes it lists. -/
theorem Walks.translated {route : Route} {paths : List (List Nat)}
    {result : List Stage × List String} (h : Walks route.at? (· = []) [] result paths) :
    route.Translated paths := by
  refine ⟨h.ascending, fun path => (h.mem_iff path).trans (exists_congr fun r => ?_)⟩
  rw [Meets, and_assoc]
  refine and_congr_right fun _ => and_congr_right fun _ => ?_
  constructor
  · rintro ⟨-, hfirst⟩ earlier r' hlt ⟨hr', hstart⟩ heq
    by_cases hmem : earlier ∈ paths
    · exact hfirst earlier hmem hlt r' hr' heq
    · -- a node that is met and not translated has its identifier from a still earlier one
      refine hmem ((h.mem_iff earlier).mpr ⟨r', hr', hstart, List.not_mem_nil, ?_⟩)
      intro before hbefore hlt' r'' hr''
      rw [heq]
      exact hfirst before hbefore (lt_trans hlt' hlt) r'' hr''
  · intro hfirst
    refine ⟨List.not_mem_nil, fun earlier hmem hlt r' hr' => ?_⟩
    obtain ⟨r'', hr'', hstart, -⟩ := (h.mem_iff earlier).mp hmem
    exact hfirst earlier r' hlt ⟨hr', hstart⟩

/-- **The stages of a route are those of its translated nodes.** -/
theorem exists_translated (route : Route) : ∃ paths, route.Translated paths ∧
    stages [route] = paths.filterMap fun path => (route.at? path).map stage := by
  obtain ⟨paths, hpaths⟩ := exists_walks_newStages [] route
  refine ⟨paths, hpaths.translated, ?_⟩
  rw [← hpaths.stages]
  exact List.append_nil _

/-- Of two stages with one identifier the first is translated, and the second one is skipped with
what lies below it. -/
example : (stages [.node ⟨"root", [], [], []⟩ [.node ⟨"s", [.app "x"], [], []⟩ [],
    .node ⟨"s", [.app "y"], [], []⟩ [.node ⟨"below", [], [], []⟩ []]]]).map (·.id)
      = ["root", "s"] := by
  decide

end Route

end RoutePolicy
