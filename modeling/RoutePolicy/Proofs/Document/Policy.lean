import RoutePolicy.Document.Policy
import RoutePolicy.Proofs.Document.Notation

set_option autoImplicit false

/-! # Policies are read back

Every part of a policy is read from what shows its document, words that are not known among them. -/

namespace RoutePolicy

variable {σ : Type} [Source σ] {Shows : σ → Document → Prop} (h : Keeps Shows)

include h

/-! ## The vocabulary -/

theorem returns_ruleKind : ∀ k : RuleKind, Returns Shows k :=
  returns_of_readWord h (fun _ => rfl) (fun _ => rfl) (by rintro ⟨⟩ <;> rfl)

theorem returns_leftOperand : ∀ o : LeftOperand, Returns Shows o :=
  returns_of_readWordOr h (fun _ => rfl) (fun _ => rfl) (by rintro ⟨⟩ <;> rfl)

theorem returns_comparison : ∀ c : Comparison, Returns Shows c :=
  returns_of_readWordOr h (fun _ => rfl) (fun _ => rfl) (by rintro ⟨⟩ <;> rfl)

theorem returns_action : ∀ a : Action, Returns Shows a :=
  returns_of_readWordOr h (fun _ => rfl) (fun _ => rfl) (by rintro ⟨⟩ <;> rfl)

theorem returns_pattern : ∀ p : Pattern, Returns Shows p :=
  returns_of_readWord h (fun _ => rfl) (fun _ => rfl) (by rintro ⟨⟩ <;> rfl)

/-! ## Rules, offers and resources -/

theorem returns_constraint (c : Constraint) : Returns Shows c := by
  intro v hv
  obtain ⟨fields, hread, hshow⟩ := h.record "Constraint"
    ["leftOperand", "operator", "rightOperand"] rfl (by decide) hv
  have hleft := hshow.required "leftOperand" rfl (returns_leftOperand h c.leftOperand)
  have hoperator := hshow.required "operator" rfl (returns_comparison h c.comparison)
  have hright := hshow.required "rightOperand" rfl (returns_string h c.rightOperand)
  exact bind_eq_some hread (bind_eq_some hleft (bind_eq_some hoperator (bind_eq_some hright rfl)))

theorem returns_duty (d : Duty) : Returns Shows d := by
  intro v hv
  obtain ⟨fields, hread, hshow⟩ := h.record "Duty" ["actions", "constraints"] rfl (by decide) hv
  have hactions := hshow.withDefault "actions" rfl
    (returns_list h fun a _ => returns_action h a) []
  have hconstraints := hshow.withDefault "constraints" rfl
    (returns_list h fun c _ => returns_constraint h c) []
  exact bind_eq_some hread (bind_eq_some hactions (bind_eq_some hconstraints rfl))

theorem returns_rule (r : Rule) : Returns Shows r := by
  intro v hv
  obtain ⟨fields, hread, hshow⟩ := h.record "Rule" ["id", "kind", "constraints", "postDuties"] rfl
    (by decide) hv
  have hid := hshow.required "id" rfl (returns_string h r.id)
  have hkind := hshow.withDefault "kind" rfl (returns_ruleKind h r.kind) .permission
  have hconstraints := hshow.withDefault "constraints" rfl
    (returns_list h fun c _ => returns_constraint h c) []
  have hduties := hshow.withDefault "postDuties" rfl (returns_list h fun d _ => returns_duty h d) []
  exact bind_eq_some hread (bind_eq_some hid (bind_eq_some hkind
    (bind_eq_some hconstraints (bind_eq_some hduties rfl))))

theorem returns_contractOffer (o : ContractOffer) : Returns Shows o := by
  intro v hv
  obtain ⟨fields, hread, hshow⟩ := h.record "ContractOffer"
    ["permissions", "prohibitions", "obligations"] rfl (by decide) hv
  have hrules (rules : List Rule) : Returns Shows rules :=
    returns_list h fun r _ => returns_rule h r
  have hpermissions := hshow.withDefault "permissions" rfl (hrules o.permissions) []
  have hprohibitions := hshow.withDefault "prohibitions" rfl (hrules o.prohibitions) []
  have hobligations := hshow.withDefault "obligations" rfl (hrules o.obligations) []
  exact bind_eq_some hread (bind_eq_some hpermissions (bind_eq_some hprohibitions
    (bind_eq_some hobligations rfl)))

theorem returns_resource (r : Resource) : Returns Shows r := by
  intro v hv
  obtain ⟨fields, hread, hshow⟩ := h.record "Resource" ["id", "contractOffers"] rfl (by decide) hv
  have hid := hshow.required "id" rfl (returns_string h r.id)
  have hoffers := hshow.withDefault "contractOffers" rfl
    (returns_list h fun o _ => returns_contractOffer h o) []
  exact bind_eq_some hread (bind_eq_some hid (bind_eq_some hoffers rfl))

end RoutePolicy
