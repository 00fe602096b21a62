import Ordo.Day.Resolve
import Ordo.Proofs.Document.Walk

namespace Ordo

namespace Logged

variable {ε α : Type} {p : Prop} [Decidable p]

theorem result_ite (x y : Logged ε α) :
    (if p then x else y).result = if p then x.result else y.result :=
  apply_ite result p x y

-- A notice that is given in one case only does not matter to what follows.
theorem result_unless_notice (n : Notice) (f : Unit → Logged ε α) :
    (if p then f () else notice n >>= f).result = (f ()).result := by
  split <;> rfl

end Logged

namespace Day

theorem addBiographies_cons (b : Bindings) (c : Commemoration) (d : SourceText)
    (ds : List SourceText) : addBiographies b c (d :: ds) = (do
    let r ← Resolved.inDocument d (Document.biography d.text (Document.seeing b c.rank)).1
    addBiographies b (c.withBiography r) ds) := by
  rw [addBiographies, Document.Walk.withRank_rankNumber]

theorem result_resolve (l : Library) (date : Date) :
    (resolve l date).result = (build l date).result :=
  rfl

theorem result_build (l : Library) (date : Date) : (build l date).result = do
    let f := DayFacts.ofDate date
    let (_, movable) ← (readMovable l f).result
    let fixed ← (readFixed l f).result
    let cs ← (movable ++ fixed).mapM fun c => (readBiographies l f.bindings c).result
    let b := f.bindingsWithRank (dayRankOf cs)
    let fastingCode ← (readFasting l b).result
    let commands ← if Ordo.hasLiturgy cs then (readCommands l b).result else pure []
    return {
      date, tone := toneOf movable, rank := dayRankOf cs, fastingCode, commemorations := cs, commands
    } := by
  rw [build, Logged.result_bind]
  refine bind_congr ?_
  rintro ⟨d, movable⟩
  refine (Logged.result_unless_notice _ _).trans ?_
  simp only [Logged.result_bind, Logged.result_mapM, Logged.result_ite]
  rfl

end Day

end Ordo
