/-
The module for the formula language, as bundles embed it.
-/

namespace Workflow.Bundle.Shipped

/-- The lines of the module for the formula language. -/
def expressionsLines : List String := [
  "\"\"\"",
  "Expression evaluation for generated workflow handlers.",
  "",
  "Expressions use Python expression syntax restricted to a small, side-effect",
  "free subset:",
  "",
  "- literals (numbers, strings, True/False/None, also true/false/null),",
  "  list / tuple / dict / set displays",
  "- names, resolved against the supplied namespace",
  "- attribute access (on dicts it reads keys; a missing key yields None)",
  "- subscripts and slices (missing dict keys and out-of-range indexes yield None)",
  "- arithmetic: + - * / // % **, unary - + not",
  "- comparisons: == != < <= > >= in, not in, is, is not (chainable)",
  "- and / or with short-circuit, returning the deciding operand",
  "- conditional expressions (a if cond else b)",
  "- calls to whitelisted helpers and whitelisted str / list / dict methods",
  "",
  "Truthiness is Python's. Anything outside the subset, unknown names and any",
  "error raised while evaluating surface as ExpressionError.",
  "\"\"\"",
  "",
  "import ast",
  "import operator",
  "from functools import lru_cache",
  "",
  "",
  "class ExpressionError(Exception):",
  "    \"\"\"Raised when an expression cannot be parsed or evaluated.\"\"\"",
  "",
  "",
  "_BINARY_OPERATORS = \x7b",
  "    ast.Add: operator.add,",
  "    ast.Sub: operator.sub,",
  "    ast.Mult: operator.mul,",
  "    ast.Div: operator.truediv,",
  "    ast.FloorDiv: operator.floordiv,",
  "    ast.Mod: operator.mod,",
  "    ast.Pow: operator.pow,",
  "\x7d",
  "",
  "_UNARY_OPERATORS = \x7b",
  "    ast.USub: operator.neg,",
  "    ast.UAdd: operator.pos,",
  "    ast.Not: operator.not_,",
  "\x7d",
  "",
  "_COMPARISONS = \x7b",
  "    ast.Eq: operator.eq,",
  "    ast.NotEq: operator.ne,",
  "    ast.Lt: operator.lt,",
  "    ast.LtE: operator.le,",
  "    ast.Gt: operator.gt,",
  "    ast.GtE: operator.ge,",
  "    ast.In: lambda a, b: a in b,",
  "    ast.NotIn: lambda a, b: a not in b,",
  "    ast.Is: operator.is_,",
  "    ast.IsNot: operator.is_not,",
  "\x7d",
  "",
  "HELPERS = \x7b",
  "    \"len\": len,",
  "    \"str\": str,",
  "    \"int\": int,",
  "    \"float\": float,",
  "    \"bool\": bool,",
  "    \"round\": round,",
  "    \"abs\": abs,",
  "    \"min\": min,",
  "    \"max\": max,",
  "    \"sum\": sum,",
  "    \"sorted\": sorted,",
  "    \"list\": list,",
  "    \"lower\": lambda value: str(value).lower(),",
  "    \"upper\": lambda value: str(value).upper(),",
  "    \"contains\": lambda container, item: container is not None and item in container,",
  "    \"startswith\": lambda value, prefix: str(value).startswith(prefix),",
  "    \"endswith\": lambda value, suffix: str(value).endswith(suffix),",
  "    \"keys\": lambda mapping: list(mapping.keys()),",
  "    \"values\": lambda mapping: list(mapping.values()),",
  "\x7d",
  "",
  "_METHODS = \x7b",
  "    str: \x7b\"lower\", \"upper\", \"strip\", \"lstrip\", \"rstrip\", \"split\", \"replace\",",
  "          \"startswith\", \"endswith\", \"join\", \"title\", \"count\", \"find\"\x7d,",
  "    list: \x7b\"count\", \"index\"\x7d,",
  "    dict: \x7b\"get\", \"keys\", \"values\", \"items\"\x7d,",
  "\x7d",
  "",
  "_LITERAL_NAMES = \x7b\"true\": True, \"false\": False, \"null\": None\x7d",
  "",
  "",
  "@lru_cache(maxsize=256)",
  "def _parse(expression: str) -> ast.Expression:",
  "    return ast.parse(expression.strip(), mode=\"eval\")",
  "",
  "",
  "class _Evaluator(ast.NodeVisitor):",
  "    def __init__(self, names):",
  "        self.names = names",
  "",
  "    def generic_visit(self, node):",
  "        raise ExpressionError(f\"unsupported syntax: \x7btype(node).__name__\x7d\")",
  "",
  "    def visit_Constant(self, node):",
  "        return node.value",
  "",
  "    def visit_Name(self, node):",
  "        if node.id in self.names:",
  "            return self.names[node.id]",
  "        if node.id in _LITERAL_NAMES:",
  "            return _LITERAL_NAMES[node.id]",
  "        raise ExpressionError(f\"name '\x7bnode.id\x7d' is not defined\")",
  "",
  "    def visit_Attribute(self, node):",
  "        if node.attr.startswith(\"_\"):",
  "            raise ExpressionError(f\"access to '\x7bnode.attr\x7d' is not allowed\")",
  "        value = self.visit(node.value)",
  "        if isinstance(value, dict):",
  "            return value.get(node.attr)",
  "        if value is None:",
  "            return None",
  "        return getattr(value, node.attr, None)",
  "",
  "    def visit_Subscript(self, node):",
  "        value = self.visit(node.value)",
  "        index = self.visit(node.slice)",
  "        if value is None:",
  "            return None",
  "        if isinstance(value, dict):",
  "            return value.get(index)",
  "        try:",
  "            return value[index]",
  "        except (IndexError, KeyError):",
  "            return None",
  "",
  "    def visit_Slice(self, node):",
  "        return slice(",
  "            self.visit(node.lower) if node.lower else None,",
  "            self.visit(node.upper) if node.upper else None,",
  "            self.visit(node.step) if node.step else None,",
  "        )",
  "",
  "    def visit_BinOp(self, node):",
  "        op = _BINARY_OPERATORS.get(type(node.op))",
  "        if op is None:",
  "            raise ExpressionError(f\"unsupported operator: \x7btype(node.op).__name__\x7d\")",
  "        return op(self.visit(node.left), self.visit(node.right))",
  "",
  "    def visit_UnaryOp(self, node):",
  "        op = _UNARY_OPERATORS.get(type(node.op))",
  "        if op is None:",
  "            raise ExpressionError(f\"unsupported operator: \x7btype(node.op).__name__\x7d\")",
  "        return op(self.visit(node.operand))",
  "",
  "    def visit_BoolOp(self, node):",
  "        value = None",
  "        for operand in node.values:",
  "            value = self.visit(operand)",
  "            if isinstance(node.op, ast.And) and not value:",
  "                return value",
  "            if isinstance(node.op, ast.Or) and value:",
  "                return value",
  "        return value",
  "",
  "    def visit_Compare(self, node):",
  "        left = self.visit(node.left)",
  "        for op_node, comparator in zip(node.ops, node.comparators):",
  "            right = self.visit(comparator)",
  "            if not _COMPARISONS[type(op_node)](left, right):",
  "                return False",
  "            left = right",
  "        return True",
  "",
  "    def visit_IfExp(self, node):",
  "        return self.visit(node.body) if self.visit(node.test) else self.visit(node.orelse)",
  "",
  "    def visit_List(self, node):",
  "        return [self.visit(element) for element in node.elts]",
  "",
  "    def visit_Tuple(self, node):",
  "        return tuple(self.visit(element) for element in node.elts)",
  "",
  "    def visit_Set(self, node):",
  "        return \x7bself.visit(element) for element in node.elts\x7d",
  "",
  "    def visit_Dict(self, node):",
  "        if any(key is None for key in node.keys):",
  "            raise ExpressionError(\"dict unpacking is not allowed\")",
  "        return \x7bself.visit(k): self.visit(v) for k, v in zip(node.keys, node.values)\x7d",
  "",
  "    def visit_Call(self, node):",
  "        if node.keywords:",
  "            raise ExpressionError(\"keyword arguments are not allowed\")",
  "        args = [self.visit(arg) for arg in node.args]",
  "",
  "        if isinstance(node.func, ast.Name):",
  "            helper = HELPERS.get(node.func.id)",
  "            if helper is None:",
  "                raise ExpressionError(f\"function '\x7bnode.func.id\x7d' is not allowed\")",
  "            return helper(*args)",
  "",
  "        if isinstance(node.func, ast.Attribute):",
  "            target = self.visit(node.func.value)",
  "            allowed = next((names for kind, names in _METHODS.items() if isinstance(target, kind)), set())",
  "            if node.func.attr not in allowed:",
  "                raise ExpressionError(f\"method '\x7bnode.func.attr\x7d' is not allowed\")",
  "            return getattr(target, node.func.attr)(*args)",
  "",
  "        raise ExpressionError(\"unsupported call target\")",
  "",
  "",
  "def evaluate(expression, names):",
  "    \"\"\"",
  "    Evaluate `expression` against the `names` namespace.",
  "",
  "    Raises:",
  "        ExpressionError: on syntax outside the subset or any evaluation error",
  "    \"\"\"",
  "    if not isinstance(expression, str):",
  "        return expression",
  "    try:",
  "        tree = _parse(expression)",
  "        return _Evaluator(names).visit(tree.body)",
  "    except Exception as e:",
  "        raise ExpressionError(f\"Expression evaluation failed: \x7be\x7d\") from e"]

end Workflow.Bundle.Shipped
