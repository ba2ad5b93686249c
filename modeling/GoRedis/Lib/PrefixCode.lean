import Mathlib
/-!
# Codewords read off the front of an input

A decoder takes an input and either reads a value off its front, leaving the rest, or
refuses. A codeword is decoded when it is read with anything behind it and when no proper
prefix of it is. Decoders that run one after the other decode the concatenated codeword.
-/
namespace PrefixCode
variable {β γ γ' ρ ρ' : Type*}

/-- The decoder `d` reads the codeword `c` as `v`: it leaves alone what follows, and it
refuses every proper prefix of `c`. A successful outcome is `ok v rest`. -/
structure Decodes (ok : γ → List β → ρ) (Fail : ρ → Prop) (d : List β → ρ) (c : List β)
    (v : γ) : Prop where
  full : ∀ rest, d (c++rest)=ok v rest
  cut : ∀ p, p <+: c → p ≠ c → Fail (d p)

theorem prefix_append_cases {p a b : List β} (h : p <+: a++b) (hne : p ≠ a++b) :
    (p <+: a ∧ p ≠ a) ∨ ∃ q, p=a++q ∧ q <+: b ∧ q ≠ b := by
  by_cases ha : a <+: p
  · obtain ⟨q,rfl⟩ := ha
    refine .inr ⟨q,rfl,(List.prefix_append_right_inj a).mp h,?_⟩
    rintro rfl
    exact hne rfl
  · have hp : p <+: a := (List.prefix_or_prefix_of_prefix h (List.prefix_append a b)).resolve_right ha
    refine .inl ⟨hp,?_⟩
    rintro rfl
    exact ha List.prefix_rfl

variable {ok : γ → List β → ρ} {Fail : ρ → Prop} {ok' : γ' → List β → ρ'} {Fail' : ρ' → Prop}

theorem Decodes.nil {d : List β → ρ} {v : γ} (h : ∀ rest, d rest=ok v rest) :
    Decodes ok Fail d [] v where
  full := h
  cut _ hp hne := absurd (List.prefix_nil.mp hp) hne

theorem Decodes.seq {d₁ : List β → ρ'} {d₂ d : List β → ρ} {c₁ c₂ : List β} {v₁ : γ'} {v : γ}
    (h₁ : Decodes ok' Fail' d₁ c₁ v₁) (h₂ : Decodes ok Fail d₂ c₂ v)
    (hfail : ∀ input, Fail' (d₁ input) → Fail (d input))
    (hok : ∀ input rest, d₁ input=ok' v₁ rest → d input=d₂ rest) :
    Decodes ok Fail d (c₁++c₂) v where
  full rest := by
    rw [List.append_assoc,hok _ _ (h₁.full (c₂++rest)),h₂.full]
  cut p hp hne := by
    rcases prefix_append_cases hp hne with ⟨hp,hne⟩ | ⟨q,rfl,hq,hne⟩
    · exact hfail p (h₁.cut p hp hne)
    · rw [hok _ _ (h₁.full q)]
      exact h₂.cut q hq hne

theorem Decodes.map {d₁ : List β → ρ'} {d : List β → ρ} {c : List β} {v₁ : γ'} {v : γ}
    (h₁ : Decodes ok' Fail' d₁ c v₁) (hfail : ∀ input, Fail' (d₁ input) → Fail (d input))
    (hok : ∀ input rest, d₁ input=ok' v₁ rest → d input=ok v rest) :
    Decodes ok Fail d c v where
  full rest := hok _ _ (h₁.full rest)
  cut p hp hne := hfail p (h₁.cut p hp hne)

section Cuts
variable {d : List β → ρ} {c : List β} {T : Set (List β)} {End : Prop → ρ → Prop}
  {End' : Prop → ρ' → Prop}

/-- Of the proper prefixes of the codeword `c`, those in `T` are told apart by how the decoder
refuses them: `End P` is the outcome when `P` holds of the prefix or not. -/
structure Cuts (End : Prop → ρ → Prop) (d : List β → ρ) (c : List β) (T : Set (List β)) :
    Prop where
  proper : ∀ p ∈ T, p <+: c ∧ p ≠ c
  cut : ∀ p, p <+: c → p ≠ c → End (p ∈ T) (d p)

theorem not_prefix_of_append {p q : List β} (hp : p <+: c) (hne : p ≠ c) : p ≠ c++q := by
  rintro rfl
  have hlen := hp.length_le
  rw [List.length_append] at hlen
  exact hne (hp.eq_of_length (by rw [List.length_append]; omega))

theorem Cuts.nil : Cuts End d [] ∅ where
  proper _ h := h.elim
  cut _ hp hne := absurd (List.prefix_nil.mp hp) hne

theorem Cuts.seq {d₁ : List β → ρ'} {d₂ : List β → ρ} {c₁ c₂ : List β} {v₁ : γ'}
    {T₁ T₂ : Set (List β)} (hdec : Decodes ok' Fail' d₁ c₁ v₁) (h₁ : Cuts End' d₁ c₁ T₁)
    (h₂ : Cuts End d₂ c₂ T₂) (hfail : ∀ P input, End' P (d₁ input) → End P (d input))
    (hok : ∀ input rest, d₁ input=ok' v₁ rest → d input=d₂ rest) :
    Cuts End d (c₁++c₂) (T₁ ∪ (c₁++·) '' T₂) where
  proper := by
    rintro p (hp | ⟨q,hq,rfl⟩)
    · obtain ⟨hpre,hne⟩ := h₁.proper p hp
      exact ⟨hpre.trans (List.prefix_append c₁ c₂),not_prefix_of_append hpre hne⟩
    · obtain ⟨hpre,hne⟩ := h₂.proper q hq
      exact ⟨(List.prefix_append_right_inj c₁).mpr hpre,fun h => hne (List.append_cancel_left h)⟩
  cut p hp hne := by
    rcases prefix_append_cases hp hne with ⟨hp,hne⟩ | ⟨q,rfl,hq,hne⟩
    · have hmem : p ∈ T₁ ∪ (c₁++·) '' T₂ ↔ p ∈ T₁ := by
        refine or_iff_left ?_
        rintro ⟨q,_,rfl⟩
        exact not_prefix_of_append hp hne rfl
      rw [hmem]
      exact hfail _ p (h₁.cut p hp hne)
    · have hmem : c₁++q ∈ T₁ ∪ (c₁++·) '' T₂ ↔ q ∈ T₂ := by
        rw [Set.mem_union,(List.append_right_injective c₁).mem_set_image]
        refine or_iff_right fun h => ?_
        obtain ⟨hpre,hne⟩ := h₁.proper _ h
        exact not_prefix_of_append hpre hne rfl
      rw [hmem,hok _ _ (hdec.full q)]
      exact h₂.cut q hq hne

theorem Cuts.map {d₁ : List β → ρ'} (h : Cuts End' d₁ c T)
    (hfail : ∀ P input, End' P (d₁ input) → End P (d input)) : Cuts End d c T where
  proper := h.proper
  cut p hp hne := hfail _ p (h.cut p hp hne)

end Cuts
end PrefixCode
