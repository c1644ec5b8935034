import PropTable.Log.Event

/-!
# Results with their events

A `Journal` is a result together with the events that led to it, in order. Steps in sequence put
their events one after the other, and no step can see or change the events before it.
-/

namespace PropTable.Log

/-- A result with the events on the way to it. -/
structure Journal (α : Type) where
  events : List Event
  result : α

namespace Journal

variable {α β : Type}

instance : Monad Journal where
  pure a := ⟨[], a⟩
  map f j := ⟨j.events, f j.result⟩
  bind j f :=
    let next := f j.result
    ⟨j.events ++ next.events, next.result⟩

def tell (e : Event) : Journal Unit := ⟨[e], ()⟩

def tellAll (es : List Event) : Journal Unit := ⟨es, ()⟩

@[simp] theorem events_pure (a : α) : (pure a : Journal α).events = [] := rfl

@[simp] theorem result_pure (a : α) : (pure a : Journal α).result = a := rfl

@[simp] theorem events_map (f : α → β) (j : Journal α) : (f <$> j).events = j.events := rfl

@[simp] theorem result_map (f : α → β) (j : Journal α) : (f <$> j).result = f j.result := rfl

@[simp] theorem events_bind (j : Journal α) (f : α → Journal β) :
    (j >>= f).events = j.events ++ (f j.result).events := rfl

@[simp] theorem result_bind (j : Journal α) (f : α → Journal β) :
    (j >>= f).result = (f j.result).result := rfl

@[simp] theorem events_tell (e : Event) : (tell e).events = [e] := rfl

@[simp] theorem events_tellAll (es : List Event) : (tellAll es).events = es := rfl

end Journal

end PropTable.Log
