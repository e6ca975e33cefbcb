import PluginBridge.Bytes.Cursor
import PluginBridge.Proofs.Bytes.Words
import PluginBridge.Proofs.Outcome
namespace PluginBridge
variable {ε α β : Type}

-- What a reader takes from data it also takes from longer data: it looks at nothing behind
-- the place where it stops, and no check of it fails because there is more.
def Stable (reader : ByteArray → Reader ε α) : Prop :=
  ∀ data more offset a stop, reader data offset = .ok a stop →
    reader (data ++ more) offset = .ok a stop

namespace Stable

theorem pure (a : α) : Stable fun _ => (Pure.pure a : Reader ε α) :=
  fun _ _ _ _ _ read => read

theorem get : Stable fun _ => (MonadState.get : Reader ε Nat) :=
  fun _ _ _ _ _ read => read

theorem throw (e : ε) : Stable fun _ => (MonadExcept.throw e : Reader ε α) := by
  intro data more offset a stop read
  cases read

theorem bind {first : ByteArray → Reader ε α} {rest : ByteArray → α → Reader ε β}
    (one : Stable first) (two : ∀ a, Stable fun data => rest data a) :
    Stable fun data => first data >>= rest data := by
  intro data more offset b stop read
  obtain ⟨a, middle, ran, later⟩ := bind_parts read
  change (first (data ++ more) >>= rest (data ++ more)) offset = .ok b stop
  rw [bind_done (one data more offset a middle ran)]
  exact two a data more middle b stop later

theorem branch {chosen : Prop} [Decidable chosen] {one two : ByteArray → Reader ε α}
    (left : Stable one) (right : Stable two) :
    Stable fun data => if chosen then one data else two data := by
  by_cases chosen : chosen
  · simpa only [if_pos chosen] using left
  · simpa only [if_neg chosen] using right

theorem bytes (length : Nat) : Stable fun data => Cursor.bytes data length := by
  intro data more offset a stop read
  simp only [Cursor.bytes] at read ⊢
  split at read
  · rename_i within
    cases read
    have held : Holds data offset (data.extract offset (offset + length)) :=
      ⟨by rwa [size_extract_within within], by rw [size_extract_within within]⟩
    have longer := (held.extend more).exact
    rw [size_extract_within within] at longer
    rw [if_pos (by rw [ByteArray.size_append]; omega), longer]
  · cases read

theorem u16 : Stable Cursor.u16 := (bytes 2).bind fun _ => .pure _

theorem u32 : Stable Cursor.u32 := (bytes 4).bind fun _ => .pure _

theorem text (place : String) : Stable fun data => Cursor.text data place := by
  intro data more offset a stop read
  simp only [Cursor.text] at read ⊢
  cases counted : Cursor.u32 data offset with
  | error e start => simp [counted] at read
  | ok length start =>
    simp only [counted] at read
    simp only [u32 data more offset length start counted]
    cases taken : Cursor.bytes data length.toNat start with
    | error e after => simp [taken] at read
    | ok encoded after =>
      simp only [taken] at read
      simpa only [bytes _ data more start encoded after taken] using read

theorem many {item : ByteArray → Reader ε α} (one : Stable item) (count : Nat) (before : List α) :
    Stable fun data => Cursor.many (item data) count before := by
  intro data more
  induction count generalizing before with
  | zero => exact fun _ _ _ read => read
  | succ count ih =>
    intro offset a stop read
    simp only [Cursor.many] at read ⊢
    cases taken : item data offset with
    | error e after => simp [taken] at read
    | ok value after =>
      simp only [taken] at read
      simp only [one data more offset value after taken]
      exact ih _ _ _ _ read

end Stable

def Ends (data : ByteArray) (reader : Reader ε α) : Prop :=
  ∀ offset a stop, reader offset = .ok a stop → stop ≤ data.size

namespace Ends
variable {data : ByteArray}

theorem bytes (length : Nat) : Ends data (Cursor.bytes data length) := by
  intro offset a stop read
  simp only [Cursor.bytes] at read
  split at read
  · cases read
    assumption
  · cases read

theorem map {reader : Reader ε α} (f : α → β) (ends : Ends data reader) :
    Ends data (reader >>= fun a => Pure.pure (f a)) := by
  intro offset b stop read
  obtain ⟨a, middle, ran, last⟩ := bind_parts read
  cases last
  exact ends offset a _ ran

theorem after {first : Reader ε α} {rest : α → Reader ε β} (ends : ∀ a, Ends data (rest a)) :
    Ends data (first >>= rest) := by
  intro offset b stop read
  obtain ⟨a, middle, _, later⟩ := bind_parts read
  exact ends a middle b stop later

end Ends

-- A reader that lives on the bytes up to the place where it stops: started inside of the data
-- it stops inside, and longer data reads the same.
structure Confined (reader : ByteArray → Reader ε α) : Prop where
  stable : Stable reader
  inside : ∀ data offset a stop, offset ≤ data.size → reader data offset = .ok a stop →
    stop ≤ data.size

namespace Confined

theorem pure (a : α) : Confined fun _ => (Pure.pure a : Reader ε α) := by
  refine ⟨.pure a, ?_⟩
  intro data offset b stop within read
  cases read
  exact within

theorem throw (e : ε) : Confined fun _ => (MonadExcept.throw e : Reader ε α) := by
  refine ⟨.throw e, ?_⟩
  intro data offset a stop within read
  cases read

theorem bind {first : ByteArray → Reader ε α} {rest : ByteArray → α → Reader ε β}
    (one : Confined first) (two : ∀ a, Confined fun data => rest data a) :
    Confined fun data => first data >>= rest data := by
  refine ⟨one.stable.bind fun a => (two a).stable, ?_⟩
  intro data offset b stop within read
  obtain ⟨a, middle, ran, later⟩ := bind_parts read
  exact (two a).inside data middle b stop (one.inside data offset a middle within ran) later

theorem branch {chosen : Prop} [Decidable chosen] {one two : ByteArray → Reader ε α}
    (left : Confined one) (right : Confined two) :
    Confined fun data => if chosen then one data else two data := by
  by_cases chosen : chosen
  · simpa only [if_pos chosen] using left
  · simpa only [if_neg chosen] using right

theorem checked {refused : Prop} [Decidable refused] {e : ε} {rest : ByteArray → Reader ε β}
    (later : Confined rest) :
    Confined fun data => if refused then MonadExcept.throw e >>= fun _ : Unit => rest data
      else rest data :=
  branch ((throw e).bind fun _ => later) later

theorem map {reader : ByteArray → Reader ε α} (f : α → β) (one : Confined reader) :
    Confined fun data => f <$> reader data := by
  simp only [map_eq_pure_bind]
  exact one.bind fun a => .pure (f a)

theorem widen {ε' : Type} {reader : ByteArray → Reader ε α} (f : ε → ε') (one : Confined reader) :
    Confined fun data => Cursor.widen f (reader data) := by
  have taken : ∀ data offset a stop, Cursor.widen f (reader data) offset = .ok a stop →
      reader data offset = .ok a stop := by
    intro data offset a stop read
    unfold Cursor.widen at read
    split at read
    · rename_i ran
      cases read
      exact ran
    · cases read
  constructor
  · intro data more offset a stop read
    have longer := one.stable data more offset a stop (taken data offset a stop read)
    simp only [Cursor.widen, longer]
  · intro data offset a stop within read
    exact one.inside data offset a stop within (taken data offset a stop read)

theorem bytes (length : Nat) : Confined fun data => Cursor.bytes data length :=
  ⟨.bytes length, fun _ offset a stop _ read => Ends.bytes length offset a stop read⟩

theorem u8 : Confined Cursor.u8 := (bytes 1).bind fun _ => .pure _

theorem u32 : Confined Cursor.u32 := (bytes 4).bind fun _ => .pure _

theorem f64 : Confined Cursor.f64 := (bytes 8).bind fun _ => .pure _

theorem text (place : String) : Confined fun data => Cursor.text data place := by
  refine ⟨.text place, ?_⟩
  intro data offset s stop within read
  simp only [Cursor.text] at read
  cases counted : Cursor.u32 data offset with
  | error e start => simp [counted] at read
  | ok length start =>
    simp only [counted] at read
    cases taken : Cursor.bytes data length.toNat start with
    | error e after => simp [taken] at read
    | ok encoded after =>
      simp only [taken] at read
      split at read
      · cases read
        exact Ends.bytes _ start encoded _ taken
      · cases read

theorem many {item : ByteArray → Reader ε α} (one : Confined item) (count : Nat) (before : List α) :
    Confined fun data => Cursor.many (item data) count before := by
  refine ⟨.many one.stable count before, ?_⟩
  intro data
  induction count generalizing before with
  | zero =>
    intro offset values stop within read
    cases read
    exact within
  | succ count ih =>
    intro offset values stop within read
    simp only [Cursor.many] at read
    cases taken : item data offset with
    | error e after => simp [taken] at read
    | ok value after =>
      simp only [taken] at read
      exact ih _ _ _ _ (one.inside data offset value after within taken) read

end Confined
end PluginBridge
