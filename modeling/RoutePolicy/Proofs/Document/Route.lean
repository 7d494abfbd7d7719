import RoutePolicy.Document.Route
import RoutePolicy.Proofs.Document.Json
import RoutePolicy.Proofs.Document.Net

set_option autoImplicit false

/-! # Routes are read back

A route is read with a bound on its height (`Route.readWithin?_eq`). Its document nests at least as
deeply as the route is high (`Route.height_le_nesting`), so no JSON text that can be read meets the
bound. -/

namespace RoutePolicy

variable {σ : Type} [Source σ] {Shows : σ → Document → Prop}

theorem returns_endpoint (h : Keeps Shows) (e : Endpoint) : Returns Shows e := by
  intro v hv
  obtain ⟨fields, hread, hshow⟩ := h.record "Endpoint" ["id", "contextTags", "kind"] rfl (by decide)
    hv
  have hid := hshow.required "id" rfl (returns_string h e.id)
  have htags := hshow.withDefault "contextTags" rfl
    (returns_list h fun tag _ => returns_string h tag) []
  have hrole := hshow.withDefault "kind" rfl (returns_role h e.role) .app
  exact bind_eq_some hread (bind_eq_some hid (bind_eq_some htags (bind_eq_some hrole rfl)))

namespace Route

mutual

/-- The stages on the longest way down from the root. -/
def height : Route → Nat
  | .node _ branches => heightOfBranches branches + 1

def heightOfBranches : List Route → Nat
  | [] => 0
  | r :: rs => max (height r) (heightOfBranches rs)

end

theorem heightOfBranches_le_iff {routes : List Route} {n : Nat} :
    heightOfBranches routes ≤ n ↔ ∀ r ∈ routes, r.height ≤ n := by
  induction routes with
  | nil => simp [heightOfBranches]
  | cons r rs ih => simp [heightOfBranches, ih]

theorem documents_eq (routes : List Route) : documents routes = routes.map document := by
  induction routes with
  | nil => rfl
  | cons r rs ih => rw [documents, ih, List.map_cons]

/-- A route is read from what shows its document if it is no higher than the bound. -/
theorem readWithin?_eq (h : Keeps Shows) {r : Route} {height : Nat} (hheight : r.height ≤ height)
    {v : σ} (hv : Shows v r.document) : readWithin? height v = some r := by
  -- on the bound, as the branches of a route have one less
  induction height generalizing r v with
  | zero =>
      obtain ⟨stage, branches⟩ := r
      rw [Route.height] at hheight
      omega
  | succ height ih =>
      obtain ⟨stage, branches⟩ := r
      rw [Route.height, Nat.add_le_add_iff_right, heightOfBranches_le_iff] at hheight
      obtain ⟨fields, hread, hshow⟩ := h.record "Route" fieldNames rfl (by decide) hv
      have hendpoints (endpoints : List Endpoint) : Returns Shows endpoints :=
        returns_list h fun e _ => returns_endpoint h e
      have hid := hshow.required "id" rfl (returns_string h stage.id)
      have hstarts := hshow.withDefault "startEndpoints" rfl (hendpoints stage.starts) []
      have hends := hshow.withDefault "endEndpoints" rfl (hendpoints stage.ends) []
      have houtputs := hshow.withDefault "outputResources" rfl
        (returns_list h fun (resource : String) _ => returns_string h resource) []
      have hbranches : fields.withDefault "subRoutes" []
          (fun v => do (← Source.items? v).mapM (readWithin? height)) = some branches :=
        hshow.withDefault "subRoutes" rfl
          (fun w hw => items_eq h (fun b hb _ => ih (hheight b hb)) (documents_eq branches ▸ hw)) []
      have hstage : readStage? fields = some stage :=
        bind_eq_some hid (bind_eq_some hstarts (bind_eq_some hends (bind_eq_some houtputs rfl)))
      exact bind_eq_some hread (bind_eq_some hbranches (bind_eq_some hstage rfl))

mutual

/-- A document nests at least as deeply as its route is high. -/
theorem height_le_nesting : ∀ r : Route, r.height ≤ r.document.toJson.nesting
  | .node stage branches => by
      have hbranches := heightOfBranches_le_nesting branches
      simp only [height, document, Document.toJson, Document.toJsonMembers, Json.nesting,
        Json.nestingOfMembers]
      omega

theorem heightOfBranches_le_nesting : ∀ routes : List Route,
    heightOfBranches routes ≤ Json.nestingOfItems (Document.toJsonItems (documents routes))
  | [] => Nat.le_refl 0
  | r :: rs => by
      have hfirst := height_le_nesting r
      have hrest := heightOfBranches_le_nesting rs
      simp only [heightOfBranches, documents, Document.toJsonItems, Json.nestingOfItems]
      omega

end

end Route

theorem returns_route (h : Keeps Shows) {r : Route} (hheight : r.height ≤ Route.maxHeight) :
    Returns Shows r := fun _ hv => Route.readWithin?_eq h hheight hv

end RoutePolicy
