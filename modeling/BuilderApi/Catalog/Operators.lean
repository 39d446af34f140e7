/-!
# Operators of the catalog

The lists that the built-in catalog is expanded from: aggregate and window operators with the
parameters that they take, time units under the names of their entries, and the descriptions of the
data transformations.
-/

namespace BuilderApi

namespace Catalog

/-- The aggregate operators, each with its parameters. -/
def aggregateOps : List (String × List String) :=
  [("count", []), ("valid", ["field"]), ("missing", ["field"]), ("distinct", ["field"]),
    ("sum", ["field"]), ("mean", ["field"]), ("average", ["field"]), ("variance", ["field"]),
    ("variancep", ["field"]), ("stdev", ["field"]), ("stdevp", ["field"]), ("stderr", ["field"]),
    ("median", ["field"]), ("q1", ["field"]), ("q3", ["field"]), ("ci0", ["field"]),
    ("ci1", ["field"]), ("min", ["field"]), ("max", ["field"]), ("argmin", ["field"]),
    ("argmax", ["field"])]

/-- The window operators, each with its parameters. -/
def windowOps : List (String × List String) :=
  [("row_number", []), ("rank", []), ("dense_rank", []), ("percent_rank", []), ("cume_dist", []),
    ("ntile", ["param"]), ("lag", ["field", "param"]), ("lead", ["field", "param"]),
    ("first_value", ["field"]), ("last_value", ["field"]), ("nth_value", ["field", "param"])]

/-- The entries of time units, each with its unit: those in local time, and then those in universal
time. -/
def timeUnitOps : List (String × String) :=
  [("year", "year"), ("quarter", "quarter"), ("month", "month"), ("day", "day"), ("date", "date"),
    ("hours", "hours"), ("minutes", "minutes"), ("seconds", "seconds"),
    ("milliseconds", "milliseconds"), ("yearmonth", "yearmonth"), ("timeYQ", "yearquarter"),
    ("timeYQM", "yearquartermonth"), ("timeYM", "yearmonth"), ("timeYMD", "yearmonthdate"),
    ("timeYMDH", "yearmonthdatehours"), ("timeYMDHM", "yearmonthdatehoursminutes"),
    ("timeYMDHMS", "yearmonthdatehoursminutesseconds"), ("timeQM", "quartermonth"),
    ("timeMD", "monthdate"), ("timeMDH", "monthdatehours"), ("timeHM", "hoursminutes"),
    ("timeHMS", "hoursminutesseconds"), ("timeMS", "minutesseconds"),
    ("timeSMS", "secondsmilliseconds"), ("utcyear", "utcyear"), ("utcquarter", "utcquarter"),
    ("utcmonth", "utcmonth"), ("utcday", "utcday"), ("utcdate", "utcdate"),
    ("utchours", "utchours"), ("utcminutes", "utcminutes"), ("utcseconds", "utcseconds"),
    ("utcmilliseconds", "utcmilliseconds"), ("utcyearmonth", "utcyearmonth"),
    ("utcYQ", "utcyearquarter"), ("utcYQM", "utcyearquartermonth"), ("utcYM", "utcyearmonth"),
    ("utcYMD", "utcyearmonthdate"), ("utcYMDH", "utcyearmonthdatehours"),
    ("utcYMDHM", "utcyearmonthdatehoursminutes"),
    ("utcYMDHMS", "utcyearmonthdatehoursminutesseconds"), ("utcQM", "utcquartermonth"),
    ("utcMD", "utcmonthdate"), ("utcMDH", "utcmonthdatehours"), ("utcHM", "utchoursminutes"),
    ("utcHMS", "utchoursminutesseconds"), ("utcMS", "utcminutesseconds"),
    ("utcSMS", "utcsecondsmilliseconds")]

/-- The descriptions of the data transformations. -/
def transformDescriptions : List (String × String) :=
  [("aggregate", "Group and summarize data as counts, sums, averages, etc."),
    ("bin", "Discretize numeric values into uniform bins."),
    ("calculate", "Calculate a new data field value."),
    ("filter", "Remove data that does not match provided conditions."),
    ("flatten", "Map array fields to new records, one per array entry."),
    ("fold", "Collapse one or more data fields into two key, value fields."),
    ("impute", "Fill in missing values with imputed values."),
    ("joinaggregate", "Extend input data with aggregate values as new fields."),
    ("join", "A convenient shorthand for joinaggregate."),
    ("lookup", "Extend input data with values from another data source."),
    ("sample", "Filter random records from the data limit its size."),
    ("stack", "Compute running sums to stack groups of values."),
    ("timeUnit", "Discretize date/time values into meaningful intervals."),
    ("window", "Perform running calculations over sorted groups."),
    ("groupby", "Group by fields for aggregate or window transforms.")]

/-- The description of a data transformation. -/
def transformDescription (name : String) : String :=
  (transformDescriptions.lookup name).getD ""

end Catalog

end BuilderApi
