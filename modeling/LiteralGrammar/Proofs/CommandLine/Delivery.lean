import LiteralGrammar.CommandLine.Run
import LiteralGrammar.Proofs.FileTree.Replace
import LiteralGrammar.Proofs.RuleSet.Readback

/-!
What a run delivers. With a valid configuration and a place to put it the whole grammar goes there;
otherwise nothing is printed and no file changes. How errors are shown and what is logged has no
part in it.
-/
namespace LiteralGrammar

theorem RuleSet.exists_grammar (s : RuleSet) : ∃ grammar, s.grammar = .ok grammar :=
  ⟨_, (Block.Writer.standard.serializeTree_eq_ok_iff _ _).mpr ⟨s.sound_document _ (by decide), rfl⟩⟩

namespace CommandLine

namespace Options

variable {o : Options} {locales : Locales} {stamps : List Stamp} {t : FileTree}

def Configures (o : Options) (locales : Locales) (c : Config) : Prop :=
  Config.ofFields (.installed locales) o.fields = .ok c

def delivery (o : Options) (locales : Locales) (stamps : List Stamp) (t : FileTree) :
    Nat × Text × FileTree :=
  match (o.generate locales).2, o.destination with
  | .error _, _ => (1, [], t)
  | .ok text, .standardOutput => (0, text, t)
  | .ok text, .path p =>
    match t.writeGrammar stamps p text with
    | (u, .ok _) => (0, [], u)
    | (u, .error _) => (1, [], u)

theorem run_delivery (o : Options) (locales : Locales) (stamps : List Stamp) (t : FileTree)
    (terminal : Bool) :
    ((o.run locales (treeStore stamps) terminal).run t).1.status = (o.delivery locales stamps t).1 ∧
      ((o.run locales (treeStore stamps) terminal).run t).1.output =
        (o.delivery locales stamps t).2.1 ∧
      ((o.run locales (treeStore stamps) terminal).run t).2 = (o.delivery locales stamps t).2.2 := by
  rw [run, delivery]
  generalize o.generate locales = made
  obtain ⟨log, outcome⟩ := made
  cases outcome with
  | error f => exact ⟨rfl, rfl, rfl⟩
  | ok text =>
    cases o.destination with
    | standardOutput => exact ⟨rfl, rfl, rfl⟩
    | path p =>
      have stored : (treeStore stamps p text).run t =
          ((t.writeGrammar stamps p text).2.map fun _ => (), (t.writeGrammar stamps p text).1) := rfl
      simp only [StateT.run_bind, stored]
      obtain ⟨u, result⟩ := t.writeGrammar stamps p text
      cases result <;> exact ⟨rfl, rfl, rfl⟩

theorem generate_eq_ok_iff (o : Options) (locales : Locales) (text : Text) :
    (o.generate locales).2 = .ok text ↔ ∃ c grammar, o.Configures locales c ∧
      (RuleSet.ofConfig c).grammar = .ok grammar ∧ text = grammar ++ "\n" := by
  simp only [generate, Configures]
  cases Config.ofFields (.installed locales) o.fields with
  | error e => simp
  | ok c =>
    obtain ⟨grammar, generated⟩ := (RuleSet.ofConfig c).exists_grammar
    simp [generated, eq_comm]

def Takes (o : Options) (stamps : List Stamp) (t : FileTree) (text : Text) : Prop :=
  match o.destination with
  | .standardOutput => True
  | .path p => ∃ l, (t.writeGrammar stamps p text).2 = .ok l

/-- What a run delivers: the whole grammar in one place, or nothing. -/
inductive Delivers (o : Options) (locales : Locales) (stamps : List Stamp) (t : FileTree) :
    Nat × Text × FileTree → Prop
  | printed {c : Config} {grammar : Text} (configured : o.Configures locales c)
      (generated : (RuleSet.ofConfig c).grammar = .ok grammar)
      (place : o.destination = .standardOutput) :
      Delivers o locales stamps t (0, grammar ++ "\n", t)
  | stored {c : Config} {grammar : Text} {p : Path} {l : Location} {u : FileTree}
      (configured : o.Configures locales c)
      (generated : (RuleSet.ofConfig c).grammar = .ok grammar)
      (place : o.destination = .path p)
      (written : t.writeGrammar stamps p (grammar ++ "\n") = (u, .ok l))
      (replaced : FileTree.Replaced t p (grammar ++ "\n" : Text).utf8 l u) :
      Delivers o locales stamps t (0, [], u)
  | refused {u : FileTree}
      (reason : ¬∃ c grammar, o.Configures locales c ∧
        (RuleSet.ofConfig c).grammar = .ok grammar ∧ o.Takes stamps t (grammar ++ "\n"))
      (kept : ∀ l e, t.find? l = some e → u.find? l = some e) :
      Delivers o locales stamps t (1, [], u)

theorem delivers (o : Options) (locales : Locales) (stamps : List Stamp) (t : FileTree) :
    Delivers o locales stamps t (o.delivery locales stamps t) := by
  rw [delivery]
  cases generated : (o.generate locales).2 with
  | error e =>
    refine .refused ?_ fun _ _ => id
    intro taken
    obtain ⟨c, grammar, configured, made, _⟩ := taken
    rw [(generate_eq_ok_iff o locales _).mpr ⟨c, grammar, configured, made, rfl⟩] at generated
    cases generated
  | ok text =>
    obtain ⟨c, grammar, configured, made, rfl⟩ := (generate_eq_ok_iff o locales text).mp generated
    have only : ∀ c' grammar', o.Configures locales c' →
        (RuleSet.ofConfig c').grammar = .ok grammar' → grammar' = grammar := by
      intro c' grammar' configured' made'
      have same := (generate_eq_ok_iff o locales _).mpr ⟨c', grammar', configured', made', rfl⟩
      rw [generated] at same
      exact (List.append_cancel_right (Except.ok.inj same)).symm
    cases place : o.destination with
    | standardOutput => exact .printed configured made place
    | path p =>
      rcases t.writeGrammar_cases stamps p (grammar ++ "\n") with
        ⟨u, l, written, replaced⟩ | ⟨u, e, -, failed, extended⟩
      · simp only [written]
        exact .stored configured made place written replaced
      · simp only [failed]
        refine .refused ?_ extended.kept
        intro taken
        obtain ⟨c', grammar', configured', made', takes⟩ := taken
        obtain rfl := only c' grammar' configured' made'
        rw [Takes, place] at takes
        obtain ⟨l, done⟩ := takes
        rw [failed] at done
        cases done

namespace Delivers

variable {d : Nat × Text × FileTree}

theorem status_eq_zero_iff (delivered : Delivers o locales stamps t d) :
    d.1 = 0 ↔ ∃ c grammar, o.Configures locales c ∧
      (RuleSet.ofConfig c).grammar = .ok grammar ∧ o.Takes stamps t (grammar ++ "\n") := by
  cases delivered with
  | printed configured generated place =>
    exact iff_of_true rfl ⟨_, _, configured, generated, by rw [Takes, place]; trivial⟩
  | stored configured generated place written replaced =>
    refine iff_of_true rfl ⟨_, _, configured, generated, ?_⟩
    rw [Takes, place]
    exact ⟨_, congrArg Prod.snd written⟩
  | refused reason kept => exact iff_of_false Nat.one_ne_zero reason

theorem of_status_eq_zero (delivered : Delivers o locales stamps t d) (done : d.1 = 0) :
    ∃ c grammar, o.Configures locales c ∧ (RuleSet.ofConfig c).grammar = .ok grammar ∧
      (o.destination = .standardOutput ∧ d.2.1 = grammar ++ "\n" ∧ d.2.2 = t ∨
        ∃ p l, o.destination = .path p ∧ d.2.1 = [] ∧
          t.writeGrammar stamps p (grammar ++ "\n") = (d.2.2, .ok l) ∧
          FileTree.Replaced t p (grammar ++ "\n" : Text).utf8 l d.2.2) := by
  cases delivered with
  | @printed c grammar configured generated place =>
    exact ⟨c, grammar, configured, generated, Or.inl ⟨place, rfl, rfl⟩⟩
  | @stored c grammar p l u configured generated place written replaced =>
    exact ⟨c, grammar, configured, generated, Or.inr ⟨p, l, place, rfl, written, replaced⟩⟩
  | refused reason kept => cases done

theorem of_status_ne_zero (delivered : Delivers o locales stamps t d) (failed : d.1 ≠ 0) :
    d.1 = 1 ∧ d.2.1 = [] ∧ ∀ l e, t.find? l = some e → d.2.2.find? l = some e := by
  cases delivered with
  | refused reason kept => exact ⟨rfl, rfl, kept⟩
  | printed | stored => exact absurd rfl failed

end Delivers

def SameRequest (o o' : Options) : Prop :=
  o.destination = o'.destination ∧ o.fields = o'.fields

theorem delivery_congr {o o' : Options} (same : o.SameRequest o') (locales : Locales)
    (stamps : List Stamp) (t : FileTree) :
    o.delivery locales stamps t = o'.delivery locales stamps t := by
  obtain ⟨destination, fields⟩ := same
  rw [delivery, delivery, generate, generate, destination, fields]

end Options

theorem runOnTree_delivery {args : List Text} {o : Options} (accepted : Options.parse args = .ok o)
    (locales : Locales) (stamps : List Stamp) (t : FileTree) (terminal : Bool) :
    (runOnTree locales stamps t terminal args).1.status = (o.delivery locales stamps t).1 ∧
      (runOnTree locales stamps t terminal args).1.output = (o.delivery locales stamps t).2.1 ∧
      (runOnTree locales stamps t terminal args).2 = (o.delivery locales stamps t).2.2 := by
  rw [runOnTree, run, accepted]
  exact o.run_delivery locales stamps t terminal

end CommandLine

end LiteralGrammar
