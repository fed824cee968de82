import AnnaToolchain.Assembly.Emission
import AnnaToolchain.Proofs.Outcome
import AnnaToolchain.Proofs.Token.Single

/-! # Names in force

    Each statement is read with the names of registers that the statements
    before it have given.  Whatever these are, `r0` to `r7` mean the
    registers themselves: a name of that spelling cannot be given. -/

namespace AnnaToolchain

/-! ## The names before a statement -/

/-- The names in force after a statement. -/
def Aliases.after (aliases : Aliases) (s : Statement) : Aliases :=
  match s.op, s.operands with
  | some (.directive .ralias), [real, name] => (aliases.add real name).toOption.getD aliases
  | _, _ => aliases

/-- The names in force where statement number `i` of a program is read. -/
def Program.aliasesBefore (p : Program) (i : Nat) : Aliases :=
  (p.take i).foldl Aliases.after .initial

theorem Aliases.after_of_ne {aliases : Aliases} {s : Statement}
    (h : s.op ≠ some (.directive .ralias)) : aliases.after s = aliases := by
  unfold after
  split
  · next hop _ => exact absurd hop h
  · rfl

theorem Program.aliasesBefore_succ {p : Program} {i : Nat} {s : Statement}
    (hs : p[i]? = some s) : p.aliasesBefore (i + 1) = (p.aliasesBefore i).after s := by
  unfold aliasesBefore
  rw [List.take_add_one, hs, Option.toList_some, List.foldl_append]
  rfl

/-- The names in force after a statement that does `effect`. -/
def Effect.aliases (aliases : Aliases) : Effect → Aliases
  | .moveTo _ | .define _ => aliases
  | .emit _ aliases => aliases

theorem Effect.aliases_ofDirective {memLen : Nat} {aliases : Aliases} {s : Statement}
    {kind : Directive} {effect : Effect} (hop : s.op = some (.directive kind))
    (h : Effect.ofDirective memLen aliases s kind = .ok effect) :
    effect.aliases aliases = aliases.after s := by
  unfold ofDirective at h
  -- one case for each directive, of which only `.ralias` gives a name
  split at h
  · rw [Aliases.after_of_ne (by simp [hop])]
    split at h
    · cases h
    · obtain ⟨address, -, h⟩ := bind_eq_ok h
      split at h
      · cases h
      · cases h
        rfl
  · rw [Aliases.after_of_ne (by simp [hop])]
    split at h
    · cases h
    · obtain ⟨value, -, h⟩ := bind_eq_ok h
      cases h
      rfl
  · next real name hargs =>
    obtain ⟨aliases', hadd, h⟩ := bind_eq_ok h
    cases h
    unfold Aliases.after
    rw [hop, hargs]
    simp only [hadd]
    rfl
  · rw [Aliases.after_of_ne (by simp [hop])]
    obtain ⟨words, -, h⟩ := bind_eq_ok h
    cases h
    rfl
  · rw [Aliases.after_of_ne (by simp [hop])]
    obtain ⟨words, -, h⟩ := bind_eq_ok h
    cases h
    rfl
  · cases h

theorem Effect.aliases_ofStatement {memLen : Nat} {aliases : Aliases} {s : Statement}
    {effect : Effect} (h : Effect.ofStatement memLen aliases s = .ok effect) :
    effect.aliases aliases = aliases.after s := by
  unfold ofStatement at h
  cases hop : s.op with
  | none =>
    simp only [hop] at h
    cases h
    exact (Aliases.after_of_ne (by simp [hop])).symm
  | some op =>
    simp only [hop] at h
    split at h
    · cases op with
      | real real =>
        obtain ⟨e, -, h⟩ := bind_eq_ok h
        cases h
        exact (Aliases.after_of_ne (by simp [hop])).symm
      | pseudo pseudo =>
        obtain ⟨es, -, h⟩ := bind_eq_ok h
        cases h
        exact (Aliases.after_of_ne (by simp [hop])).symm
      | directive kind => exact aliases_ofDirective hop h
    · cases h

/-! ## Registers by their own names -/

namespace Aliases

/-- Every register goes by its own name. -/
def Native (aliases : Aliases) : Prop :=
  ∀ r : Register, aliases.lookup r.name = some r

theorem native_initial : initial.Native := by
  intro r
  match r with
  | 0 | 1 | 2 | 3 | 4 | 5 | 6 | 7 => rfl

/-- A name on its own is a token of its own. -/
theorem exists_scan_of_nameOf? {text name : String} (h : nameOf? text = some name) :
    ∃ c rest n, Token.scan c rest = (n, .ok (.name name)) := by
  unfold nameOf? at h
  split at h
  · next name' t start hlex =>
    cases h
    obtain ⟨c, rest, n, -, -, hscan, -⟩ :=
      Token.mem_lex (s := text) (l := ⟨.name name, t, start⟩) (by rw [hlex]; simp)
    exact ⟨c, rest, n, hscan⟩
  · cases h

theorem native_add {aliases aliases' : Aliases} {real name : String} (hn : aliases.Native)
    (h : aliases.add real name = .ok aliases') : aliases'.Native := by
  unfold add at h
  split at h
  · cases h
  · split at h
    · next name' hname =>
      cases h
      obtain ⟨c, rest, n, hscan⟩ := exists_scan_of_nameOf? hname
      -- the new name comes first, but it is not how a register is spelled
      intro r
      have hne : (r.name == name'.toLower) = false :=
        beq_eq_false_iff_ne.mpr (Token.toLower_ne_of_scan hscan r).symm
      rw [List.lookup_cons, hne]
      exact hn r
    · cases h

theorem native_after {aliases : Aliases} (hn : aliases.Native) (s : Statement) :
    (aliases.after s).Native := by
  unfold after
  split
  · next real name _ _ =>
    cases h : aliases.add real name with
    | error _ => exact hn
    | ok aliases' => exact native_add hn h
  · exact hn

theorem native_foldl {aliases : Aliases} (hn : aliases.Native) (ss : List Statement) :
    (ss.foldl after aliases).Native := by
  induction ss generalizing aliases with
  | nil => exact hn
  | cons s ss ih => exact ih (native_after hn s)

theorem native_aliasesBefore (p : Program) (i : Nat) : (p.aliasesBefore i).Native :=
  native_foldl native_initial _

theorem Native.register_name {aliases : Aliases} (hn : aliases.Native) (r : Register) :
    aliases.register r.name = .ok r := by
  have hname : ∀ r : Register, (Text.trim r.name).toLower = r.name := by decide +kernel
  unfold register
  rw [hname, hn]

theorem Native.register_zero {aliases : Aliases} (hn : aliases.Native) :
    aliases.register "r0" = .ok .zero :=
  hn.register_name .zero

end Aliases

end AnnaToolchain
