import ElementModules.Text.Quoted

/-!
# Procedures of generated modules

The fields of a generated module that say how the element is edited, checked, drawn on the screen and
written as a circuit. Only the icon and the drawing tag depend on the element.
-/

namespace ElementModules.Descriptor

open Text

/-- The fields that say how the element is edited and checked. -/
def editingFields : Text :=
  Text.ofLines [
    "  propertySchema: \x7b",
    "    connection: \x7b",
    "      label: 'Connection',",
    "      fields: \x7b",
    "        x1: \x7b type: 'number', label: 'X1' \x7d,",
    "        y1: \x7b type: 'number', label: 'Y1' \x7d,",
    "        x2: \x7b type: 'number', label: 'X2' \x7d,",
    "        y2: \x7b type: 'number', label: 'Y2' \x7d,",
    "      \x7d,",
    "    \x7d,",
    "    value: \x7b",
    "      label: 'Value',",
    "      fields: \x7b",
    "        value: \x7b type: 'text', label: 'Value' \x7d,",
    "      \x7d,",
    "    \x7d,",
    "    label: \x7b",
    "      label: 'Label',",
    "      fields: \x7b",
    "        label: \x7b type: 'text', label: 'Label' \x7d,",
    "      \x7d,",
    "    \x7d,",
    "  \x7d,",
    "  validate(element) \x7b",
    "    return \x7b valid: true \x7d;",
    "  \x7d,"]

/-- The shapes in which elements are drawn on the screen. -/
inductive Drawing
  /-- A wire with a labelled box on it. -/
  | box
  /-- A zigzag. -/
  | zigzag
  /-- Two parallel plates. -/
  | plates
  deriving DecidableEq, Repr

namespace Drawing

/-- The shape of an element. -/
def ofName (name : Text) : Drawing :=
  if name = ("resistor" : Text) then .zigzag
  else if name = ("capacitor" : Text) then .plates
  else .box

/-- The procedure that draws a box with an icon in it. -/
def boxProcedure (icon : Text) : Text :=
  Text.ofLines [
    "  svgRender(element, isSelected, zoom) \x7b",
    "    const stroke = isSelected ? '#3b82f6' : (element.stroke || '#000');",
    "    const strokeWidth = (element.strokeWidth || 0.05) / (zoom || 1);",
    "    const mx = (element.x1 + element.x2) / 2;",
    "    const my = (element.y1 + element.y2) / 2;",
    "    return [",
    "      \x7b tag: 'line', x1: element.x1, y1: element.y1, x2: element.x2, y2: element.y2, stroke, strokeWidth \x7d,",
    "      \x7b tag: 'rect', x: mx - 0.3, y: my - 0.15, width: 0.6, height: 0.3, fill: '#fff', stroke, strokeWidth \x7d,"]
    ++ "      \x7b tag: 'text', x: mx, y: my, text: " ++ quote icon ++ ", fontSize: 0.2 \x7d,\n"
    ++ Text.ofLines [
    "    ];",
    "  \x7d,"]

/-- The procedure that draws a zigzag. -/
def zigzagProcedure : Text :=
  Text.ofLines [
    "  svgRender(element, isSelected, zoom) \x7b",
    "    const stroke = isSelected ? '#3b82f6' : (element.stroke || '#000');",
    "    const strokeWidth = (element.strokeWidth || 0.05) / (zoom || 1);",
    "    const \x7b x1, y1, x2, y2 \x7d = element;",
    "    const length = Math.hypot(x2 - x1, y2 - y1) || 1;",
    "    const ux = (x2 - x1) / length;",
    "    const uy = (y2 - y1) / length;",
    "    const body = Math.min(0.8, length);",
    "    const lead = (length - body) / 2;",
    "    const points = [[x1, y1], [x1 + ux * lead, y1 + uy * lead]];",
    "    for (let i = 1; i <= 6; i += 1) \x7b",
    "      const t = lead + (body * (i - 0.5)) / 6;",
    "      const side = i % 2 === 0 ? -0.12 : 0.12;",
    "      points.push([x1 + ux * t - uy * side, y1 + uy * t + ux * side]);",
    "    \x7d",
    "    points.push([x2 - ux * lead, y2 - uy * lead], [x2, y2]);",
    "    return [\x7b tag: 'polyline', points, fill: 'none', stroke, strokeWidth \x7d];",
    "  \x7d,"]

/-- The procedure that draws two plates. -/
def platesProcedure : Text :=
  Text.ofLines [
    "  svgRender(element, isSelected, zoom) \x7b",
    "    const stroke = isSelected ? '#3b82f6' : (element.stroke || '#000');",
    "    const strokeWidth = (element.strokeWidth || 0.05) / (zoom || 1);",
    "    const \x7b x1, y1, x2, y2 \x7d = element;",
    "    const length = Math.hypot(x2 - x1, y2 - y1) || 1;",
    "    const ux = (x2 - x1) / length;",
    "    const uy = (y2 - y1) / length;",
    "    const mx = (x1 + x2) / 2;",
    "    const my = (y1 + y2) / 2;",
    "    const gap = 0.08;",
    "    const plate = 0.25;",
    "    const ax = mx - ux * gap;",
    "    const ay = my - uy * gap;",
    "    const bx = mx + ux * gap;",
    "    const by = my + uy * gap;",
    "    return [",
    "      \x7b tag: 'line', x1, y1, x2: ax, y2: ay, stroke, strokeWidth \x7d,",
    "      \x7b tag: 'line', x1: bx, y1: by, x2, y2, stroke, strokeWidth \x7d,",
    "      \x7b tag: 'line', x1: ax - uy * plate, y1: ay + ux * plate, x2: ax + uy * plate, y2: ay - ux * plate, stroke, strokeWidth \x7d,",
    "      \x7b tag: 'line', x1: bx - uy * plate, y1: by + ux * plate, x2: bx + uy * plate, y2: by - ux * plate, stroke, strokeWidth \x7d,",
    "    ];",
    "  \x7d,"]

/-- The field that draws the element. -/
def procedure (d : Drawing) (icon : Text) : Text :=
  match d with
  | .box => boxProcedure icon
  | .zigzag => zigzagProcedure
  | .plates => platesProcedure

end Drawing

/-- The field that writes the element as part of a circuit. -/
def circuitProcedure (drawingTag : Text) : Text :=
  Text.ofLines [
    "  codeGenerator(element) \x7b"]
    ++ "    const options = [" ++ quote drawingTag ++ "];\n"
    ++ Text.ofLines [
    "    if (element.value) \x7b",
    "      options.push(`l=$\x7belement.value\x7d`);",
    "    \x7d",
    "    if (element.label) \x7b",
    "      options.push(`a=$\x7belement.label\x7d`);",
    "    \x7d",
    "    return `\\\\draw ($\x7belement.x1\x7d,$\x7belement.y1\x7d) to[$\x7boptions.join(', ')\x7d] ($\x7belement.x2\x7d,$\x7belement.y2\x7d);`;",
    "  \x7d,"]

end ElementModules.Descriptor
