import FrameworkBenchmarks.TitanPl.RouteTable

/-!
# What the loader reads from `routes.json`

Entries and dynamic routes are read one by one, and a single one that cannot be read leaves the
server without any route. A value that is read is the written one exactly if its numbers are.
-/

namespace FrameworkBenchmarks.TitanPl

variable {N : Type} {readNumber : N → Option N}

/-! ### Strings -/

theorem decodeChars_eq_some_iff (s : JsString) (cs : List Char) :
    decodeChars s = some cs ↔ s = cs.map .scalar := by
  induction s generalizing cs with
  | nil => cases cs <;> simp [decodeChars]
  | cons unit rest ih =>
    cases unit with
    | scalar c =>
      cases cs with
      | nil => simp [decodeChars]
      | cons d cs => simp [decodeChars, ih, and_comm]
    | surrogate unit => cases cs <;> simp [decodeChars]

/-- A string is read as a text exactly if it is the string of that text. -/
theorem decode_eq_some_iff (s : JsString) (t : String) : decode s = some t ↔ s = jsString t := by
  rw [decode, Option.map_eq_some_iff]
  constructor
  · rintro ⟨cs, hcs, rfl⟩
    rw [jsString, String.toList_ofList]
    exact (decodeChars_eq_some_iff s cs).mp hcs
  · intro h
    exact ⟨t.toList, (decodeChars_eq_some_iff s _).mpr h, String.ofList_toList⟩

@[simp] theorem decode_jsString (t : String) : decode (jsString t) = some t :=
  (decode_eq_some_iff _ _).mpr rfl

theorem jsString_injective : Function.Injective jsString := by
  intro s t h
  have hs := decode_jsString s
  rw [h, decode_jsString] at hs
  exact (Option.some.inj hs).symm

theorem jsString_append (s t : String) : jsString (s ++ t) = jsString s ++ jsString t := by
  simp [jsString]

/-- A concatenation is read exactly if both parts are. -/
theorem decode_append_isSome (s t : JsString) :
    (decode (s ++ t)).isSome ↔ (decode s).isSome ∧ (decode t).isSome := by
  simp only [decode, Option.isSome_map]
  induction s with
  | nil => simp [decodeChars]
  | cons unit rest ih =>
    cases unit with
    | scalar c => simpa [decodeChars] using ih
    | surrogate unit => simp [decodeChars]

/-! ### Values -/

mutual

/-- A read value as a JavaScript value. -/
def Value.toJs : Value N → JsValue N
  | .null => .null
  | .bool b => .bool b
  | .number n => .number n
  | .string s => .string (jsString s)
  | .array items => .array (itemsToJs items)
  | .object fields => .object (fieldsToJs fields)

def itemsToJs : List (Value N) → List (JsValue N)
  | [] => []
  | v :: items => v.toJs :: itemsToJs items

def fieldsToJs : List (String × Value N) → List (JsString × JsValue N)
  | [] => []
  | (k, v) :: fields => (jsString k, v.toJs) :: fieldsToJs fields

end

mutual

/-- The numbers in a value, `none` for those that are not finite. -/
def JsValue.numbers : JsValue N → List (Option N)
  | .null | .bool _ | .string _ => []
  | .number n => [some n]
  | .notFinite => [none]
  | .array items => itemsNumbers items
  | .object fields => fieldsNumbers fields

def itemsNumbers : List (JsValue N) → List (Option N)
  | [] => []
  | v :: items => v.numbers ++ itemsNumbers items

def fieldsNumbers : List (JsString × JsValue N) → List (Option N)
  | [] => []
  | (_, v) :: fields => v.numbers ++ fieldsNumbers fields

end

/-- A number that is finite and read back as it is. -/
def ReadsBack (readNumber : N → Option N) (n : Option N) : Prop := n.bind readNumber = n ∧ n ≠ none

mutual

/-- What is read for a value is that value exactly if all its numbers are read back. -/
theorem eq_toJs_iff_of_read (depth : ℕ) (v : JsValue N) (u : Value N)
    (h : v.read readNumber depth = some u) :
    v = u.toJs ↔ ∀ n ∈ v.numbers, ReadsBack readNumber n := by
  cases v with
  | null =>
    obtain rfl : .null = u := Option.some.inj h
    simp [Value.toJs, JsValue.numbers]
  | bool b =>
    obtain rfl : .bool b = u := Option.some.inj h
    simp [Value.toJs, JsValue.numbers]
  | number n =>
    obtain ⟨m, hm, rfl⟩ := Option.map_eq_some_iff.mp h
    simp [Value.toJs, JsValue.numbers, ReadsBack, hm, eq_comm]
  | notFinite =>
    obtain rfl : .null = u := Option.some.inj h
    simp [Value.toJs, JsValue.numbers, ReadsBack]
  | string s =>
    obtain ⟨t, ht, rfl⟩ := Option.map_eq_some_iff.mp h
    simp [Value.toJs, JsValue.numbers, (decode_eq_some_iff s t).mp ht]
  | array items =>
    by_cases hdepth : depth - 1 = 0
    · simp [JsValue.read, hdepth] at h
    · rw [JsValue.read, if_neg hdepth] at h
      obtain ⟨read, hread, rfl⟩ := Option.map_eq_some_iff.mp h
      simpa [Value.toJs, JsValue.numbers] using eq_itemsToJs_iff_of_read _ items read hread
  | object fields =>
    by_cases hdepth : depth - 1 = 0
    · simp [JsValue.read, hdepth] at h
    · rw [JsValue.read, if_neg hdepth] at h
      obtain ⟨read, hread, rfl⟩ := Option.map_eq_some_iff.mp h
      simpa [Value.toJs, JsValue.numbers] using eq_fieldsToJs_iff_of_read _ fields read hread

theorem eq_itemsToJs_iff_of_read (depth : ℕ) (items : List (JsValue N)) (read : List (Value N))
    (h : readItems readNumber depth items = some read) :
    items = itemsToJs read ↔ ∀ n ∈ itemsNumbers items, ReadsBack readNumber n := by
  cases items with
  | nil =>
    obtain rfl : [] = read := Option.some.inj h
    simp [itemsToJs, itemsNumbers]
  | cons v items =>
    cases hv : v.read readNumber depth with
    | none => simp [readItems, hv] at h
    | some u =>
      cases hitems : readItems readNumber depth items with
      | none => simp [readItems, hv, hitems] at h
      | some us =>
        obtain rfl : u :: us = read := by simpa [readItems, hv, hitems] using h
        have hhead := eq_toJs_iff_of_read depth v u hv
        have htail := eq_itemsToJs_iff_of_read depth items us hitems
        simp only [itemsToJs, itemsNumbers, List.cons.injEq, hhead, htail, List.forall_mem_append]

theorem eq_fieldsToJs_iff_of_read (depth : ℕ) (fields : List (JsString × JsValue N))
    (read : List (String × Value N)) (h : readFields readNumber depth fields = some read) :
    fields = fieldsToJs read ↔ ∀ n ∈ fieldsNumbers fields, ReadsBack readNumber n := by
  cases fields with
  | nil =>
    obtain rfl : [] = read := Option.some.inj h
    simp [fieldsToJs, fieldsNumbers]
  | cons field fields =>
    obtain ⟨k, v⟩ := field
    cases hk : decode k with
    | none => simp [readFields, hk] at h
    | some key =>
      cases hv : v.read readNumber depth with
      | none => simp [readFields, hk, hv] at h
      | some u =>
        cases hfields : readFields readNumber depth fields with
        | none => simp [readFields, hk, hv, hfields] at h
        | some us =>
          obtain rfl : (key, u) :: us = read := by simpa [readFields, hk, hv, hfields] using h
          have hhead := eq_toJs_iff_of_read depth v u hv
          have htail := eq_fieldsToJs_iff_of_read depth fields us hfields
          simp only [fieldsToJs, fieldsNumbers, List.cons.injEq, Prod.mk.injEq,
            (decode_eq_some_iff k key).mp hk, true_and, hhead, htail, List.forall_mem_append]

end

/-! ### The document -/

/-- What is read for an entry of the table. -/
def readEntry (readNumber : N → Option N) (m : JsString × RouteEntry N) :
    Option (String × RouteVal N) :=
  match decode m.1, m.2.value.read readNumber 125 with
  | some key, some value => some (key, ⟨m.2.type, value⟩)
  | _, _ => none

/-- What is read for a dynamic route. -/
def readDynamic (entry : DynamicEntry) : Option DynamicRoute :=
  match decode entry.pattern, decode entry.action with
  | some pattern, some action => some ⟨entry.method.text, pattern, action⟩
  | _, _ => none

/-- The read form of an entry and of a dynamic route. -/
def RouteVal.toValue (route : RouteVal N) : Value N :=
  .object [("type", .string route.type), ("value", route.value)]

def DynamicRoute.toValue (route : DynamicRoute) : Value N :=
  .object [("method", .string route.method), ("pattern", .string route.pattern),
    ("action", .string route.action)]

theorem readFields_routes (readNumber : N → Option N) (routes : List (JsString × RouteEntry N)) :
    readFields readNumber 126 (routes.map fun m => (m.1, m.2.toJson)) =
      (routes.mapM (readEntry readNumber)).map fun read =>
        read.map fun route => (route.1, route.2.toValue) := by
  induction routes with
  | nil => rfl
  | cons m routes ih =>
    have hentry : m.2.toJson.read readNumber 126 =
        (m.2.value.read readNumber 125).map fun v => RouteVal.toValue ⟨m.2.type, v⟩ := by
      cases hv : m.2.value.read readNumber 125 <;>
        simp [RouteEntry.toJson, JsValue.read, readFields, hv, RouteVal.toValue]
    rw [List.map_cons, readFields, ih, hentry, List.mapM_cons]
    cases hk : decode m.1 <;> cases hv : m.2.value.read readNumber 125 <;>
      cases hroutes : routes.mapM (readEntry readNumber) <;>
      simp [readEntry, hk, hv]

theorem readItems_dynamic (readNumber : N → Option N) (entries : List DynamicEntry) :
    readItems readNumber 126 (entries.map DynamicEntry.toJson) =
      (entries.mapM readDynamic).map fun read => read.map DynamicRoute.toValue := by
  induction entries with
  | nil => rfl
  | cons entry entries ih =>
    rw [List.map_cons, readItems, ih, List.mapM_cons]
    cases hp : decode entry.pattern <;> cases ha : decode entry.action <;>
      cases hentries : entries.mapM readDynamic <;>
      simp [readDynamic, DynamicEntry.toJson, JsValue.read, readFields, hp, ha,
        DynamicRoute.toValue]

theorem routesFromValue_toValue (routes : List (String × RouteVal N)) :
    routesFromValue (.object (routes.map fun route => (route.1, route.2.toValue))) = some routes := by
  unfold routesFromValue
  induction routes with
  | nil => rfl
  | cons route routes ih =>
    have hroute : RouteVal.fromValue route.2.toValue = some route.2 := rfl
    simp only [List.map_cons, List.mapM_cons, ih, hroute]
    rfl

theorem dynamicFromValue_toValue (routes : List DynamicRoute) :
    dynamicFromValue (N := N) (.array (routes.map DynamicRoute.toValue)) = some routes := by
  unfold dynamicFromValue
  induction routes with
  | nil => rfl
  | cons route routes ih =>
    have hroute : DynamicRoute.fromValue (N := N) route.toValue = some route := rfl
    simp only [List.map_cons, List.mapM_cons, ih, hroute]
    rfl

/-- The state of a server with the given tables. -/
def tables (fastPaths : String → Bool) (routes : List (String × RouteVal N))
    (dynamicRoutes : List DynamicRoute) : AppState N where
  routes := routes
  dynamicRoutes := dynamicRoutes
  precomputed := routes.filterMap fun route => (precompute route.2).map (route.1, ·)
  fastPaths := fastPaths

/-- Loading reads all tables or none. -/
theorem loadRoutes_document (readNumber : N → Option N) (fastPaths : String → Bool)
    (config : JsValue N) (b : Builder N) :
    loadRoutes readNumber fastPaths (document config b) =
      match config.read readNumber 127, b.routes.mapM (readEntry readNumber),
        b.flatDynamic.mapM readDynamic with
      | some _, some routes, some dynamicRoutes => tables fastPaths routes dynamicRoutes
      | _, _, _ => tables fastPaths [] [] := by
  have hroutes := readFields_routes readNumber b.routes
  have hdynamic := readItems_dynamic readNumber b.flatDynamic
  cases hc : config.read readNumber 127 with
  | none => simp [loadRoutes, document, JsValue.read, readFields, hc, Value.get, routesFromValue,
      dynamicFromValue, tables]
  | some config' =>
    cases hr : b.routes.mapM (readEntry readNumber) with
    | none =>
      rw [hr] at hroutes
      simp [loadRoutes, document, JsValue.read, readFields, hc, hroutes, Value.get, routesFromValue,
        dynamicFromValue, tables]
    | some routes =>
      cases hd : b.flatDynamic.mapM readDynamic with
      | none =>
        rw [hd] at hdynamic
        simp [loadRoutes, document, JsValue.read, readFields, hc, hdynamic, Value.get,
          routesFromValue, dynamicFromValue, tables]
      | some dynamicRoutes =>
        rw [hr] at hroutes
        rw [hd] at hdynamic
        have hmap := routesFromValue_toValue routes
        have hlist := dynamicFromValue_toValue (N := N) dynamicRoutes
        simp [loadRoutes, document, JsValue.read, readFields, hc, hroutes, hdynamic, Value.get,
          hmap, hlist, tables]

end FrameworkBenchmarks.TitanPl
